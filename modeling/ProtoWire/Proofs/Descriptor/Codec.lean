import ProtoWire.Descriptor.Record
import ProtoWire.Proofs.Message.Written

/-!
# Records are read back

A record that is not nested too deep is parsed as itself, field by field.
-/

namespace ProtoWire

variable {r : Record} {nested : RecordType → Merge Record Unit} {type : RecordType}
  {f : RecordField} {i : Nat} {cells : List (Cell Record)} {cell cell' : Cell Record}
  {fields : List RecordField}

/-! ### Records of a type -/

/-- The cells of a kind, with records inside that satisfy `P`. -/
inductive CellKind.Holds (P : RecordType → Record → Prop) : CellKind → Cell Record → Prop where
  | text {value : Option String} : Holds P .text (.text value)
  | int32 {value : Option Int32} : Holds P .int32 (.int32 value)
  | bool {value : Option Bool} : Holds P .bool (.bool value)
  | uint64 {value : Option UInt64} : Holds P .uint64 (.uint64 value)
  | texts {values : List String} : Holds P .texts (.texts values)
  | sub {type : RecordType} {value : Option Record} (inner : ∀ r ∈ value, P type r) :
    Holds P (.sub type) (.sub value)
  | subs {type : RecordType} {values : List Record} (inner : ∀ r ∈ values, P type r) :
    Holds P (.subs type) (.subs values)

/-- A record with a cell for each field of its type. -/
inductive Record.Fits : RecordType → Record → Prop where
  | intro {type : RecordType} {cells : List (Cell Record)}
    (holds : List.Forall₂ (fun f cell => f.kind.Holds Fits cell) type.fields cells) :
    Fits type ⟨cells⟩

mutual

/-- How many levels deep the records inside a record go. -/
def Record.nesting : Record → Nat
  | ⟨cells⟩ => nestingCells cells

/-- How many levels deep the records in cells go. -/
def nestingCells : List (Cell Record) → Nat
  | [] => 0
  | cell :: cells => max (nestingCell cell) (nestingCells cells)

/-- How many levels deep the records in a cell go. -/
def nestingCell : Cell Record → Nat
  | .sub (some r) => r.nesting + 1
  | .subs values => nestingRecords values
  | .text _ | .int32 _ | .bool _ | .uint64 _ | .texts _ | .sub none => 0

/-- How many levels deep records go, from outside. -/
def nestingRecords : List Record → Nat
  | [] => 0
  | r :: rs => max (r.nesting + 1) (nestingRecords rs)

end

theorem nesting_lt_nestingRecords {rs : List Record} (h : r ∈ rs) :
    r.nesting < nestingRecords rs := by
  induction rs with
  | nil => cases h
  | cons r' rs ih =>
    rw [nestingRecords]
    rcases List.mem_cons.1 h with rfl | h
    · omega
    · have := ih h
      omega

/-! ### Sizes -/

mutual

/-- The size of a record is the number of its bytes. -/
theorem Record.length_encode (type : RecordType) :
    (r : Record) → (r.encode type).length = r.size type
  | ⟨cells⟩ => by
    rw [Record.encode, Record.size, length_encodeCells]

theorem length_encodeCells : (fields : List RecordField) → (cells : List (Cell Record)) →
    (encodeCells fields cells).length = sizeCells fields cells
  | f :: fields, cell :: cells => by
    rw [encodeCells, sizeCells, List.length_append, length_encodeCell, length_encodeCells]
  | [], _ | _ :: _, [] => by simp [encodeCells, sizeCells]

theorem length_encodeCell (f : RecordField) :
    (cell : Cell Record) → (encodeCell f cell).length = sizeCell f cell
  | .text (some value) => by
    rw [encodeCell, sizeCell, List.length_append, length_writeTag, length_writeBlob,
      length_utf8Bytes]
  | .int32 (some value) => by
    rw [encodeCell, sizeCell, List.length_append, length_writeTag, length_writeInt32]
  | .bool (some value) => by
    rw [encodeCell, sizeCell, List.length_append, length_writeTag, List.length_singleton]
  | .uint64 (some value) => by
    rw [encodeCell, sizeCell, List.length_append, length_writeTag, Varint.length_encode]
  | .texts values => by
    rw [encodeCell, sizeCell, List.length_flatMap, totalSize_eq_sum]
    refine congrArg List.sum (List.map_congr_left fun value _ => ?_)
    rw [List.length_append, length_writeTag, length_writeBlob, length_utf8Bytes]
  | .sub (some r) => by
    have hr := fun type => r.length_encode type
    rw [encodeCell, sizeCell]
    split
    · rw [List.length_append, List.length_append, length_writeTag, length_writeLength, hr,
        delimitedSize, Nat.add_assoc]
    · rw [List.length_append, List.length_append, length_writeTag, length_writeLength, hr,
        delimitedSize, Nat.add_assoc]
    · rfl
  | .subs values => by
    rw [encodeCell, sizeCell]
    split
    · exact length_encodeRecords f _ values
    · exact length_encodeRecords f _ values
    · rfl
  | .text none | .int32 none | .bool none | .uint64 none | .sub none => by
    simp [encodeCell, sizeCell]

theorem length_encodeRecords (f : RecordField) (type : RecordType) :
    (rs : List Record) → (encodeRecords f type rs).length = sizeRecords f type rs
  | [] => by simp [encodeRecords, sizeRecords]
  | r :: rs => by
    have hr := r.length_encode type
    have hrs := length_encodeRecords f type rs
    rw [encodeRecords, sizeRecords, List.length_append, List.length_append, List.length_append,
      length_writeTag, length_writeLength, hr, hrs, delimitedSize, Nat.add_assoc (tagSize f.tag)]

end

/-! ### Actions that fill a target -/

section Fills

variable {σ α : Type} {levels : Nat} {bytes : Bytes} {a b : σ}

/-- From these bytes the action makes one target of another, whatever follows them, and the reader
stands behind them afterwards. The action goes at most so many levels deeper. -/
def Fills (levels : Nat) (x : Merge σ Unit) (bytes : Bytes) (a b : σ) : Prop :=
  ∀ (r : Reader) (rest : Bytes), r.remaining = bytes ++ rest →
    r.depth.toNat + levels ≤ r.recursionLimit.toNat →
      ∃ r', x ⟨a, r⟩ = .ok () ⟨b, r'⟩ ∧ (r.advance bytes.length).Alike r'

/-- From these bytes up to the limit the action makes one target of another, and reads to the
end. -/
def Completes (levels : Nat) (x : Merge σ Unit) (bytes : Bytes) (a b : σ) : Prop :=
  ∀ r : Reader, r.remaining = bytes → r.pos + bytes.length = r.limit →
    r.depth.toNat + levels ≤ r.recursionLimit.toNat →
      x ⟨a, r⟩ = .ok () ⟨b, { r.advance bytes.length with lastTag := 0 }⟩

theorem Fills.of_reads {x : Read α} {value : α} (h : Reads levels x bytes value)
    (store : α → σ → σ) :
    Fills levels (Merge.read x >>= fun value => Merge.update (store value)) bytes a
      (store value a) := by
  intro r rest hr hlevels
  obtain ⟨r', hx, halike⟩ := h r rest hr hlevels
  exact ⟨r', bind_of_ok (Merge.read_of_ok hx), halike⟩

theorem Completes.readMessage {contents : Merge σ Unit} (h : Completes levels contents bytes a b)
    (hlength : bytes.length < 2 ^ 31) :
    Fills (levels + 1) (readMessage contents) (writeLength bytes.length ++ bytes) a b := by
  intro r rest hr hlevels
  rw [List.append_assoc] at hr
  have hne : writeLength bytes.length ≠ [] := (Varint.spells_encode _).ne_nil
  have hdepth : (r.depth + 1).toNat + levels ≤ r.recursionLimit.toNat := by
    rw [Reader.toNat_depth_succ (by omega)]
    omega
  obtain ⟨last, hopen⟩ :=
    exists_openMessage (reads_readLength_writeLength hlength) hne hr hlevels
  have hcontents := h _ (r.remaining_atPayload (r.depth + 1) last hr) rfl hdepth
  refine ⟨_, ?_, 0, rfl⟩
  rw [readMessage_eq, bind_of_ok (Merge.read_of_ok hopen), bind_of_ok hcontents,
    Merge.read_of_ok (closeMessage_eq_ok.2 ⟨rfl, rfl⟩)]
  simp [Reader.atPayload, Reader.advance, Nat.add_assoc]

end Fills

/-! ### Cells -/

section Cells

variable {levels : Nat} {payload : Bytes}

theorem fills_text {value : String} (h : (utf8Bytes value).length < 2 ^ 31) (cell : Cell Record) :
    Fills levels (mergeCell nested .text) (writeBlob (utf8Bytes value)) cell (.text (some value)) :=
  .of_reads (reads_readText h) fun value (_ : Cell Record) => Cell.text (some value)

theorem fills_int32 (value : Int32) (cell : Cell Record) :
    Fills levels (mergeCell nested .int32) (writeInt32 value) cell (.int32 (some value)) :=
  .of_reads (reads_readScalar (Scalar.int32.spells_write value))
    fun value (_ : Cell Record) => Cell.int32 (some value)

theorem fills_bool (value : Bool) (cell : Cell Record) :
    Fills levels (mergeCell nested .bool) [value.toUInt8] cell (.bool (some value)) :=
  .of_reads (reads_readScalar (Scalar.bool.spells_write value))
    fun value (_ : Cell Record) => Cell.bool (some value)

theorem fills_uint64 (value : UInt64) (cell : Cell Record) :
    Fills levels (mergeCell nested .uint64) (Varint.encode value) cell (.uint64 (some value)) :=
  .of_reads (reads_readVarint64 (Varint.spells_encode value))
    fun value (_ : Cell Record) => Cell.uint64 (some value)

theorem fills_texts {value : String} (h : (utf8Bytes value).length < 2 ^ 31)
    (values : List String) :
    Fills levels (mergeCell nested .texts) (writeBlob (utf8Bytes value)) (.texts values)
      (.texts (values ++ [value])) := by
  intro reader rest hr hlevels
  obtain ⟨r', hread, halike⟩ := reads_readText h reader rest hr hlevels
  refine ⟨r', ?_, halike⟩
  rw [mergeCell, bind_of_ok (Merge.read_of_ok hread)]
  rfl

theorem fills_sub (h : Fills levels (readMessage (nested type)) payload type.blank r) :
    Fills levels (mergeCell nested (.sub type)) payload (.sub none) (.sub (some r)) := by
  intro reader rest hr hlevels
  obtain ⟨r', hmerge, halike⟩ := h reader rest hr hlevels
  refine ⟨r', ?_, halike⟩
  rw [mergeCell, bind_of_ok (Merge.target_apply _ _)]
  simp only [Merge.within, hmerge]

theorem fills_subs (h : Fills levels (readMessage (nested type)) payload type.blank r)
    (values : List Record) :
    Fills levels (mergeCell nested (.subs type)) payload (.subs values)
      (.subs (values ++ [r])) := by
  intro reader rest hr hlevels
  obtain ⟨r', hmerge, halike⟩ := h reader rest hr hlevels
  refine ⟨r', ?_, halike⟩
  have hapart : Merge.apart type.blank (readMessage (nested type)) ⟨Cell.subs values, reader⟩ =
      .ok r ⟨Cell.subs values, r'⟩ := by
    simp only [Merge.apart, hmerge]
  rw [mergeCell, bind_of_ok hapart]
  rfl

end Cells

/-! ### Fields -/

theorem RecordType.nodup_numbers (type : RecordType) :
    (type.fields.map RecordField.number).Nodup := by
  cases type <;> decide

theorem RecordType.number_bounds (type : RecordType) :
    ∀ f ∈ type.fields, f.number ≠ 0 ∧ f.number < 0x20000000 := by
  have hall : type.fields.all fun f => f.number ≠ 0 ∧ f.number < 0x20000000 := by
    cases type <;> decide
  simpa using hall

theorem RecordType.number_tag (hf : f ∈ type.fields) : Tag.number f.tag = f.number :=
  Tag.number_make (type.number_bounds f hf).2 _

theorem RecordType.number_tag_ne_zero (hf : f ∈ type.fields) : Tag.number f.tag ≠ 0 := by
  rw [RecordType.number_tag hf]
  exact (type.number_bounds f hf).1

theorem RecordType.find?_tag (hf : type.fields[i]? = some f) :
    type.fields.zipIdx.find? (fun (g, _) =>
      g.number == Tag.number f.tag && g.kind.wireType == f.kind.wireType) = some (f, i) := by
  have hmem : (f, i) ∈ type.fields.zipIdx := List.mem_zipIdx_iff_getElem?.2 hf
  rw [RecordType.number_tag (List.mem_of_getElem? hf)]
  cases hfind : type.fields.zipIdx.find? (fun (g, _) =>
      g.number == f.number && g.kind.wireType == f.kind.wireType) with
  | none =>
    have := List.find?_eq_none.1 hfind _ hmem
    simp at this
  | some q =>
    obtain ⟨_, j⟩ := q
    have hg := List.mem_zipIdx_iff_getElem?.1 (List.mem_of_find?_eq_some hfind)
    have hsame := List.find?_some hfind
    simp only [Bool.and_eq_true, beq_iff_eq] at hsame
    have hij : j = i := by
      refine (List.getElem?_inj ?_ type.nodup_numbers).1 ?_
      · simpa using (List.getElem?_eq_some_iff.1 hg).1
      · simp [hg, hf, hsame.1]
    subst hij
    rw [Option.some.inj (hf.symm.trans hg)]

theorem atCell_of_ok {x : Merge (Cell Record) Unit} {r r' : Reader} (hcell : cells[i]? = some cell)
    (h : x ⟨cell, r⟩ = .ok () ⟨cell', r'⟩) :
    atCell i x ⟨⟨cells⟩, r⟩ = .ok () ⟨⟨cells.set i cell'⟩, r'⟩ := by
  unfold atCell
  rw [bind_of_ok (Merge.target_apply _ _), hcell]
  simp only [Merge.within, h]

/-- One step of the loop: a tag, and what fills the cell of its field. -/
theorem mergeCells_field (field : type.fields[i]? = some f) (stored : cells[i]? = some cell)
    {reader r r' : Reader} (htag : readTag reader = .ok f.tag r)
    (hcell : mergeCell nested f.kind ⟨cell, r⟩ = .ok () ⟨cell', r'⟩) (fuel : Nat) :
    mergeCells nested type.fields (fuel + 1) ⟨⟨cells⟩, reader⟩ =
      mergeCells nested type.fields fuel ⟨⟨cells.set i cell'⟩, r'⟩ := by
  have hzero : f.tag ≠ 0 := by
    intro hzero
    exact RecordType.number_tag_ne_zero (List.mem_of_getElem? field) (by rw [hzero]; decide)
  have htype : Tag.wireType f.tag = .ok f.kind.wireType := Tag.wireType_make _ _
  rw [mergeCells, bind_of_ok (Merge.read_of_ok htag), if_neg hzero]
  simp only [htype]
  rw [RecordType.find?_tag field]
  exact bind_of_ok (atCell_of_ok stored hcell)

theorem mergeCells_atEnd {reader : Reader} (hend : reader.pos = reader.limit) (r : Record)
    (fuel : Nat) :
    mergeCells nested fields (fuel + 1) ⟨r, reader⟩ =
      .ok () ⟨r, { reader with lastTag := 0 }⟩ := by
  have htag : readTag reader = .ok 0 { reader with lastTag := 0 } :=
    readTag_eq_ok.2 (.inl ⟨by simpa [Reader.atEnd] using hend, rfl, rfl⟩)
  rw [mergeCells, bind_of_ok (Merge.read_of_ok htag), if_pos rfl]
  rfl

/-- Bytes that make one record of a type of another, a field after the other. -/
inductive Feeds (nested : RecordType → Merge Record Unit) (type : RecordType) (levels : Nat) :
    Bytes → Record → Record → Prop where
  | nil (r : Record) : Feeds nested type levels [] r r
  | cons {f : RecordField} {i : Nat} {payload bytes : Bytes} {cells : List (Cell Record)}
    {cell cell' : Cell Record} {r : Record} (field : type.fields[i]? = some f)
    (stored : cells[i]? = some cell)
    (fills : Fills levels (mergeCell nested f.kind) payload cell cell')
    (rest : Feeds nested type levels bytes ⟨cells.set i cell'⟩ r) :
    Feeds nested type levels (writeTag f.tag ++ (payload ++ bytes)) ⟨cells⟩ r

section Feeds

variable {levels : Nat} {bytes bytes' : Bytes} {r' r'' : Record}

theorem Feeds.append (h : Feeds nested type levels bytes r r')
    (h' : Feeds nested type levels bytes' r' r'') :
    Feeds nested type levels (bytes ++ bytes') r r'' := by
  induction h with
  | nil => exact h'
  | cons field stored fills rest ih =>
    rw [List.append_assoc, List.append_assoc]
    exact .cons field stored fills (ih h')

/-- Fields are merged one after the other, up to the limit. -/
theorem Feeds.mergeCells (h : Feeds nested type levels bytes r r') {fuel : Nat}
    (hfuel : bytes.length < fuel) :
    Completes levels (mergeCells nested type.fields fuel) bytes r r' := by
  induction h generalizing fuel with
  | nil r =>
    intro reader hr hend hlevels
    cases fuel with
    | zero => exact absurd hfuel (Nat.not_lt_zero _)
    | succ fuel => exact mergeCells_atEnd hend r fuel
  | @cons f i payload bytes cells cell cell' r field stored fills rest ih =>
    intro reader hr hend hlevels
    cases fuel with
    | zero => exact absurd hfuel (Nat.not_lt_zero _)
    | succ fuel =>
      have hpos : 0 < (writeTag f.tag).length :=
        List.length_pos_iff.2 (Varint.spells_encode _).ne_nil
      have hnumber := RecordType.number_tag_ne_zero (List.mem_of_getElem? field)
      obtain ⟨_, htag, last, rfl⟩ := reads_readTag_writeTag hnumber reader _ hr hlevels
      have hremaining := reader.remaining_advance_append hr
      obtain ⟨_, hcell, last', rfl⟩ := fills
        { reader.advance (writeTag f.tag).length with lastTag := last } bytes hremaining hlevels
      have hlength : (writeTag f.tag ++ (payload ++ bytes)).length =
          (writeTag f.tag).length + (payload.length + bytes.length) := by
        rw [List.length_append, List.length_append]
      rw [hlength] at hfuel hend ⊢
      have hrest := @ih fuel (by omega)
        { (reader.advance (writeTag f.tag).length).advance payload.length with lastTag := last' }
        (Reader.remaining_advance_append hremaining)
        (by simpa [Reader.advance, Nat.add_assoc] using hend) hlevels
      rw [mergeCells_field field stored htag hcell]
      refine hrest.trans ?_
      simp [Reader.advance, Nat.add_assoc]

end Feeds

/-! ### Records -/

section Records

variable {levels : Nat} {done rest : List (Cell Record)}

theorem feeds_tag (hf : type.fields[done.length]? = some f) {payload : Bytes}
    (h : Fills levels (mergeCell nested f.kind) payload cell cell') :
    Feeds nested type levels (writeTag f.tag ++ payload) ⟨done ++ cell :: rest⟩
      ⟨done ++ cell' :: rest⟩ := by
  have hfeeds : Feeds nested type levels (writeTag f.tag ++ (payload ++ []))
      ⟨done ++ cell :: rest⟩ ⟨(done ++ cell :: rest).set done.length cell'⟩ :=
    .cons hf (by simp) h (.nil _)
  simpa using hfeeds

theorem feeds_flatMap {α : Type} (hf : type.fields[done.length]? = some f) {write : α → Bytes}
    (store : List α → Cell Record) {values : List α}
    (h : ∀ value ∈ values, ∀ stored, Fills levels (mergeCell nested f.kind) (write value)
      (store stored) (store (stored ++ [value]))) (stored : List α) :
    Feeds nested type levels (values.flatMap fun value => writeTag f.tag ++ write value)
      ⟨done ++ store stored :: rest⟩ ⟨done ++ store (stored ++ values) :: rest⟩ := by
  induction values generalizing stored with
  | nil => simpa using Feeds.nil _
  | cons value values ih =>
    have hmore := ih (fun value hv => h value (List.mem_cons_of_mem _ hv)) (stored ++ [value])
    rw [List.append_assoc] at hmore
    exact (feeds_tag hf (h value List.mem_cons_self stored)).append hmore

theorem encodeCell_sub {t : RecordType} (hkind : f.kind = .sub t) (r : Record) :
    encodeCell f (.sub (some r)) = writeTag f.tag ++ (writeLength (r.size t) ++ r.encode t) := by
  simp [encodeCell, hkind]

theorem encodeCell_subs {t : RecordType} (hkind : f.kind = .subs t) (rs : List Record) :
    encodeCell f (.subs rs) =
      rs.flatMap fun r => writeTag f.tag ++ (writeLength (r.size t) ++ r.encode t) := by
  have hrecords : ∀ rs, encodeRecords f t rs =
      rs.flatMap fun r => writeTag f.tag ++ (writeLength (r.size t) ++ r.encode t) := by
    intro rs
    induction rs with
    | nil => rfl
    | cons r rs ih =>
      rw [encodeRecords, ih, List.flatMap_cons, List.append_assoc (writeTag f.tag)]
  simp only [encodeCell, hkind, hrecords]

theorem feeds_encodeCell (hf : type.fields[done.length]? = some f)
    (h : f.kind.Holds (fun t r => Fills levels (readMessage (nested t))
      (writeLength (r.size t) ++ r.encode t) t.blank r) cell)
    (hlength : (encodeCell f cell).length < 2 ^ 31) :
    Feeds nested type levels (encodeCell f cell) ⟨done ++ f.kind.blank :: rest⟩
      ⟨done ++ cell :: rest⟩ := by
  cases f
  cases h with
  | @text value =>
    cases value with
    | none => exact .nil _
    | some value =>
      rw [encodeCell, List.length_append] at hlength
      exact feeds_tag hf (fills_text (length_lt_of_writeBlob (by omega)) _)
  | @int32 value =>
    cases value with
    | none => exact .nil _
    | some value => exact feeds_tag hf (fills_int32 value _)
  | @bool value =>
    cases value with
    | none => exact .nil _
    | some value => exact feeds_tag hf (fills_bool value _)
  | @uint64 value =>
    cases value with
    | none => exact .nil _
    | some value => exact feeds_tag hf (fills_uint64 value _)
  | @texts values =>
    refine feeds_flatMap hf Cell.texts (fun value hv stored => ?_) []
    rw [encodeCell] at hlength
    have hshort := (length_le_of_mem _ hv).trans_lt hlength
    rw [List.length_append] at hshort
    exact fills_texts (length_lt_of_writeBlob (by omega)) stored
  | @sub t value inner =>
    cases value with
    | none => exact .nil _
    | some r =>
      rw [encodeCell_sub rfl]
      exact feeds_tag hf (fills_sub (inner r rfl))
  | @subs t values inner =>
    rw [encodeCell_subs rfl]
    exact feeds_flatMap hf Cell.subs (fun r hr stored => fills_subs (inner r hr) stored) []

theorem feeds_encodeCells {before : List RecordField} (htype : type.fields = before ++ fields)
    (hdone : done.length = before.length)
    (h : List.Forall₂ (fun f cell => f.kind.Holds (fun t r => Fills levels (readMessage (nested t))
      (writeLength (r.size t) ++ r.encode t) t.blank r) cell) fields cells)
    (hlength : (encodeCells fields cells).length < 2 ^ 31) :
    Feeds nested type levels (encodeCells fields cells)
      ⟨done ++ fields.map fun f => f.kind.blank⟩ ⟨done ++ cells⟩ := by
  induction h generalizing before done with
  | nil => exact .nil _
  | @cons f cell fields cells hcell hcells ih =>
    rw [encodeCells] at hlength ⊢
    rw [List.length_append] at hlength
    have hf : type.fields[done.length]? = some f := by
      rw [htype, hdone]
      simp
    have hdone' : (done ++ [cell]).length = (before ++ [f]).length := by
      rw [List.length_append, List.length_append, hdone]
      rfl
    have hmore := ih (htype.trans (List.append_cons before f fields)) hdone' (by omega)
    rw [List.append_assoc, List.append_assoc] at hmore
    exact (feeds_encodeCell hf hcell (by omega)).append hmore

variable {P Q : RecordType → Record → Prop} {bound : Nat}

/-- What holds of the records in a cell, which are less deep and have less bytes. -/
theorem CellKind.Holds.imp (h : f.kind.Holds P cell) (hnesting : nestingCell cell ≤ levels)
    (hlength : (encodeCell f cell).length ≤ bound)
    (hPQ : ∀ t r, P t r → r.nesting < levels → (r.encode t).length < bound → Q t r) :
    f.kind.Holds Q cell := by
  have hpos : 0 < (writeTag f.tag).length :=
    List.length_pos_iff.2 (Varint.spells_encode _).ne_nil
  cases f
  cases h with
  | text => exact .text
  | int32 => exact .int32
  | bool => exact .bool
  | uint64 => exact .uint64
  | texts => exact .texts
  | sub inner =>
    refine .sub fun r hr => ?_
    obtain rfl := hr
    rw [encodeCell_sub rfl, List.length_append, List.length_append] at hlength
    rw [nestingCell] at hnesting
    exact hPQ _ _ (inner r rfl) (by omega) (by omega)
  | subs inner =>
    refine .subs fun r hr => ?_
    rw [encodeCell_subs rfl] at hlength
    have hshort := (length_le_of_mem _ hr).trans hlength
    rw [List.length_append, List.length_append] at hshort
    have hlt := nesting_lt_nestingRecords hr
    rw [nestingCell] at hnesting
    exact hPQ _ _ (inner r hr) (by omega) (by omega)

theorem holds_imp (h : List.Forall₂ (fun f cell => f.kind.Holds P cell) fields cells)
    (hnesting : nestingCells cells ≤ levels) (hlength : (encodeCells fields cells).length ≤ bound)
    (hPQ : ∀ t r, P t r → r.nesting < levels → (r.encode t).length < bound → Q t r) :
    List.Forall₂ (fun f cell => f.kind.Holds Q cell) fields cells := by
  induction h with
  | nil => exact .nil
  | cons hcell hcells ih =>
    rw [nestingCells, Nat.max_le] at hnesting
    rw [encodeCells, List.length_append] at hlength
    exact .cons (hcell.imp hnesting.1 (by omega) hPQ) (ih hnesting.2 (by omega))

/-- The bytes of a record make it of a blank one. By induction on the fuel: the records inside have
less bytes. -/
theorem Record.Fits.completes (h : r.Fits type) (hnesting : r.nesting ≤ levels)
    (hlength : (r.encode type).length < 2 ^ 31) {fuel : Nat}
    (hfuel : (r.encode type).length < fuel) :
    Completes levels (mergeRecordWithin fuel type) (r.encode type) type.blank r := by
  induction fuel generalizing type r levels with
  | zero => exact absurd hfuel (Nat.not_lt_zero _)
  | succ fuel ih =>
    cases h with
    | @intro _ cells holds =>
      rw [Record.encode] at hlength hfuel ⊢
      rw [Record.nesting] at hnesting
      have hfilled := holds_imp
        (Q := fun t r => Fills levels (readMessage (mergeRecordWithin fuel t))
          (writeLength (r.size t) ++ r.encode t) t.blank r) holds hnesting
        (Nat.le_refl (encodeCells type.fields cells).length) (by
        intro t r hr hlt hshort
        obtain ⟨inside, rfl⟩ : ∃ inside, levels = inside + 1 := ⟨levels - 1, by omega⟩
        rw [← Record.length_encode]
        exact (ih hr (by omega) (by omega) (by omega)).readMessage (by omega))
      have hfeeds := feeds_encodeCells (List.nil_append type.fields).symm List.length_nil
        hfilled hlength
      intro reader hr hend hlevels
      have hleft : (encodeCells type.fields cells).length < reader.bytesLeft + 1 := by
        rw [Reader.bytesLeft]
        omega
      rw [mergeRecordWithin, bind_of_ok (Merge.read_of_ok get_apply)]
      exact hfeeds.mergeCells hleft reader hr hend hlevels

/-- A record that is not nested too deep is parsed as itself. -/
theorem Record.Fits.parse_encode (h : r.Fits type)
    (hnesting : r.nesting ≤ defaultRecursionLimit.toNat)
    (hlength : (r.encode type).length < 2 ^ 31) : Record.parse type (r.encode type) = .ok r := by
  have hleft : (Reader.ofBytes (r.encode type)).bytesLeft = (r.encode type).length := by
    simp [Reader.bytesLeft, Reader.ofBytes]
  have hmerge := h.completes hnesting hlength (Nat.lt_succ_self _)
    (Reader.ofBytes (r.encode type)) (by simp [Reader.remaining, Reader.ofBytes])
    (by simp [Reader.ofBytes]) (by simp [Reader.ofBytes])
  have hrun : (do mergeRecord type; Merge.read (checkLastTag 0))
      ⟨type.blank, Reader.ofBytes (r.encode type)⟩ =
        .ok () ⟨r, { (Reader.ofBytes (r.encode type)).advance (r.encode type).length with
          lastTag := 0 }⟩ := by
    have hrecord : mergeRecord type ⟨type.blank, Reader.ofBytes (r.encode type)⟩ =
        mergeRecordWithin ((Reader.ofBytes (r.encode type)).bytesLeft + 1) type
          ⟨type.blank, Reader.ofBytes (r.encode type)⟩ := by
      rw [mergeRecord, bind_of_ok (Merge.read_of_ok get_apply)]
    rw [hleft, hmerge] at hrecord
    rw [bind_of_ok hrecord]
    exact Merge.read_of_ok (checkLastTag_eq_ok.2 ⟨rfl, rfl⟩)
  rw [Record.parse, Record.mergeBytes, hrun]

end Records

end ProtoWire
