import ProtoWire.Proofs.Message.Repack
import ProtoWire.Proofs.Message.RoundTrip

/-!
# Lists on the wire

The types `Packed` and `Unpacked` have the same three lists and write them in different forms. Both
read either form.
-/

namespace ProtoWire

theorem Element.Collects.exists_scalars {element : Element} {slot : Slot Message} {kind : Scalar}
    (h : element.Collects slot) (hempty : element.emptySlot = .scalars kind .empty) :
    ∃ c : Repeated kind.Value, slot = .scalars kind c ∧
      c.values.length ≤ Repeated.maxCapacity kind.storageSize := by
  cases h with
  | scalar hsound | enum hsound =>
    cases hempty
    exact ⟨_, rfl, hsound.length_le⟩
  | text | blob | message | group => cases hempty

namespace Conformance

/-! ### Lists -/

/-- The lists of a message that writes them packed or one by one. -/
inductive Column where
  | values
  | colors
  | ratios
deriving DecidableEq

namespace Column

/-- The place in the layout. -/
def index : Column → Nat
  | values => 0
  | colors => 1
  | ratios => 2

/-- The field number. -/
def number : Column → UInt32
  | values => 1
  | colors => 2
  | ratios => 3

/-- The kind of the values. An enum is its raw number. -/
def kind : Column → Scalar
  | values | colors => .int32
  | ratios => .double

/-- The field that stores the list in a type. -/
def field (type : TypeId) (c : Column) : Field :=
  let placement := .repeated (type == Packed)
  match c with
  | values => { name := "values", number := c.number, element := plain .int32, placement }
  | colors => { name := "colors", number := c.number, element := .enum color none, placement }
  | ratios => { name := "ratios", number := c.number, element := plain .double, placement }

theorem exists_index {i : Nat} (h : i < 3) : ∃ c : Column, c.index = i := by
  match i with
  | 0 => exact ⟨values, rfl⟩
  | 1 => exact ⟨colors, rfl⟩
  | 2 => exact ⟨ratios, rfl⟩

/-- The tag of a single value. -/
def valueTag (c : Column) : UInt32 :=
  Tag.make c.number c.kind.wireType

/-- The tag of a packed run. -/
def runTag (c : Column) : UInt32 :=
  Tag.make c.number .len

end Column

/-- A list for each column. -/
abbrev Columns := (c : Column) → List c.kind.Value

namespace Columns

/-- The message with the lists. -/
def message (x : Columns) : Message :=
  { presence := [], cases := [],
    slots :=
      [.scalars .int32 (.ofList (x .values)), .scalars .int32 (.ofList (x .colors)),
        .scalars .double (.ofList (x .ratios))] }

/-- No values. -/
def empty : Columns := fun _ =>
  []

/-- The lists with others behind them. -/
def append (x y : Columns) : Columns := fun c =>
  x c ++ y c

/-- Containers can hold the lists. -/
def Fit (x : Columns) : Prop :=
  ∀ c, (x c).length ≤ Repeated.maxCapacity c.kind.storageSize

theorem append_empty (x : Columns) : x.append empty = x :=
  funext fun c => List.append_nil (x c)

theorem append_assoc (x y z : Columns) : (x.append y).append z = x.append (y.append z) :=
  funext fun c => List.append_assoc (x c) (y c) (z c)

theorem getElem?_message (x : Columns) (c : Column) :
    x.message.slots[c.index]? = some (.scalars c.kind (.ofList (x c))) := by
  cases c <;> rfl

theorem message_inj {x y : Columns} (h : x.message = y.message) : x = y := by
  funext c
  have hslot := congrArg (fun m : Message => m.slots[c.index]?) h
  simp only [getElem?_message, Option.some.injEq, Slot.scalars.injEq, heq_eq_eq, true_and,
    Repeated.ofList_inj] at hslot
  exact hslot

end Columns

/-! ### Parts of lists -/

/-- Some values of a column, and how they stand on the wire. -/
structure Chunk where
  column : Column
  values : List column.kind.Value
  bytes : Bytes

namespace Chunk

/-- The values of a chunk for a column. -/
def valuesOf (k : Chunk) : Columns := fun c =>
  if h : k.column = c then h ▸ k.values else []

/-- The updates that append the values. -/
def updates (k : Chunk) : List Update :=
  k.values.map (.scalar k.column.index k.column.kind)

/-- One value behind its tag, or any number of them behind a tag and their length. Tags, lengths and
values are spelled in any way. -/
inductive Spelled : Chunk → Prop where
  | value {c : Column} {tagBytes payload : Bytes} {tag : UInt64} {value : c.kind.Value}
    (tag_spelled : Varint.Spells tagBytes tag) (tag_eq : tag.toUInt32 = c.valueTag)
    (value_spelled : c.kind.Spells payload value) :
    Spelled ⟨c, [value], tagBytes ++ payload⟩
  | run {c : Column} {tagBytes header : Bytes} {tag size : UInt64}
    {spellings : List (Bytes × c.kind.Value)}
    (tag_spelled : Varint.Spells tagBytes tag) (tag_eq : tag.toUInt32 = c.runTag)
    (size_spelled : Varint.Spells header size)
    (size_eq : size.toUInt32.toNat = (spellings.flatMap Prod.fst).length)
    (size_lt : (spellings.flatMap Prod.fst).length < 2 ^ 31)
    (values_spelled : ∀ s ∈ spellings, c.kind.Spells s.1 s.2) :
    Spelled ⟨c, spellings.map Prod.snd, tagBytes ++ (header ++ spellings.flatMap Prod.fst)⟩

theorem valuesOf_self (k : Chunk) : k.valuesOf k.column = k.values :=
  dif_pos rfl

theorem valuesOf_of_ne {k : Chunk} {c : Column} (h : k.column ≠ c) : k.valuesOf c = [] :=
  dif_neg h

end Chunk

/-- The lists that chunks add up to. -/
def gather (chunks : List Chunk) : Columns := fun c =>
  chunks.flatMap (·.valuesOf c)

theorem gather_nil : gather [] = Columns.empty := rfl

theorem gather_cons (k : Chunk) (chunks : List Chunk) :
    gather (k :: chunks) = k.valuesOf.append (gather chunks) := rfl

theorem message_append_chunk (x : Columns) (k : Chunk) :
    (x.append k.valuesOf).message =
      x.message.setSlot k.column.index
        (.scalars k.column.kind (.ofList (x k.column ++ k.values))) := by
  have hother : ∀ c, k.column ≠ c → x.append k.valuesOf c = x c := by
    intro c hne
    rw [Columns.append, Chunk.valuesOf_of_ne hne, List.append_nil]
  rw [← k.valuesOf_self]
  cases hc : k.column with
  | values =>
    simp only [Columns.message, hother .colors (by simp [hc]), hother .ratios (by simp [hc])]
    rfl
  | colors =>
    simp only [Columns.message, hother .values (by simp [hc]), hother .ratios (by simp [hc])]
    rfl
  | ratios =>
    simp only [Columns.message, hother .values (by simp [hc]), hother .colors (by simp [hc])]
    rfl

/-! ### Columns as fields -/

/-- A type stores a list in its field, and reads it in both forms. -/
structure Column.Placed (type : TypeId) (c : Column) : Prop where
  field : (schema.layout type).fields[c.index]? = some (c.field type)
  repeated : (c.field type).isRepeated = true
  packed : (c.field type).strategy.cardinality.isPacked = true → type = Packed
  empty : (c.field type).element.emptySlot = .scalars c.kind .empty
  read : ∀ read, PlacedField.readUpdate read (c.field type, c.index) =
    Update.scalar c.index c.kind <$> readScalar c.kind
  value : (schema.layout type).route c.valueTag = some ((c.field type, c.index), .element)
  run : (schema.layout type).route c.runTag = some ((c.field type, c.index), .run)

theorem Column.placed {type : TypeId} (htype : type = Packed ∨ type = Unpacked) (c : Column) :
    c.Placed type := by
  rcases htype with rfl | rfl
  · cases c <;> exact ⟨rfl, rfl, fun _ => rfl, rfl, fun _ => rfl, by cbv, by cbv⟩
  · cases c <;> exact ⟨rfl, rfl, fun h => absurd h (by decide), rfl, fun _ => rfl, by cbv, by cbv⟩

theorem Column.number_tag (c : Column) :
    Tag.number c.valueTag ≠ 0 ∧ Tag.number c.runTag ≠ 0 := by
  cases c <;> decide

section Types

variable {type : TypeId} (htype : type = Packed ∨ type = Unpacked)

include htype

/-- A chunk is read back, whatever its form. -/
theorem Chunk.Spelled.conveys {k : Chunk} (hk : k.Spelled) (levels : Nat) :
    Conveys levels (readContents schema type) k.bytes k.updates := by
  have hf := k.column.placed htype
  have hread := skippable_readContents Conformance.valid
  cases hk with
  | @value c tagBytes payload tag value htag heq hvalue =>
    have hnumber : Tag.number tag.toUInt32 ≠ 0 := heq ▸ c.number_tag.1
    have hu : Reads levels (PlacedField.readUpdate (readContents schema) (c.field type, c.index))
        payload (.scalar c.index c.kind value) := by
      rw [hf.read]
      exact (reads_readScalar hvalue).map _
    exact (conveys_record (valid type) hread (reads_readTag htag hnumber)
      (reads_element (heq ▸ hf.value) hu)).congr (readContents_apply valid type)
  | @run c tagBytes header tag size spellings htag heq hheader hsize hlt hvalues =>
    have hnumber : Tag.number tag.toUInt32 ≠ 0 := heq ▸ c.number_tag.2
    have hpos := not_toInt32_neg_iff.2 (hsize ▸ hlt)
    have hlength : Reads levels readLength header (spellings.flatMap Prod.fst).length :=
      hsize ▸ reads_readLength hheader hpos
    have hus := PlacedField.reads_scalarRun (hf.read (readContents schema)) hlength
      hheader.ne_nil hvalues
    exact (conveys_record (valid type) hread (reads_readTag htag hnumber)
      (reads_packed (heq ▸ hf.run) hus)).congr (readContents_apply valid type)

/-- The list of a column that is written is read back, in the form that the type writes it in. -/
theorem conveys_written {x : Columns} {c : Column}
    (hlength : type = Packed → ((x c).flatMap c.kind.write).length < 2 ^ 31) (order : FieldOrder)
    (levels : Nat) :
    Conveys levels (readContents schema type)
      (x.message.written schema order (c.field type, c.index))
      ((x c).map (.scalar c.index c.kind)) := by
  have hf := c.placed htype
  rw [Message.written_of_repeated hf.repeated (x.getElem?_message c)]
  exact PlacedField.conveys_scalars valid hf.field hf.repeated (hf.read _) fun hpacked =>
    hlength (hf.packed hpacked)

/-! ### Chunks in a row -/

theorem applyAll_chunk (x : Columns) (k : Chunk)
    (hroom : (x k.column).length + k.values.length ≤
      Repeated.maxCapacity k.column.kind.storageSize) :
    applyAll schema type k.updates x.message =
      some (x.append k.valuesOf).message := by
  have hf := k.column.placed htype
  have hindex : ∀ u ∈ k.updates, u.index = k.column.index := by
    intro u hu
    obtain ⟨value, -, rfl⟩ := List.mem_map.1 hu
    rfl
  rw [applyAll_eq_changeAll hf.field hf.repeated (x.getElem?_message k.column) hindex,
    Chunk.updates, changeAll_scalars hroom, message_append_chunk]
  rfl

theorem applyAll_chunks (x : Columns) (chunks : List Chunk)
    (hfit : (x.append (gather chunks)).Fit) :
    applyAll schema type (chunks.flatMap Chunk.updates) x.message =
      some (x.append (gather chunks)).message := by
  induction chunks generalizing x with
  | nil => rw [gather_nil, Columns.append_empty, List.flatMap_nil, applyAll]
  | cons k chunks ih =>
    rw [gather_cons, ← Columns.append_assoc] at hfit ⊢
    have hroom : (x k.column ++ k.valuesOf k.column ++ gather chunks k.column).length ≤ _ :=
      hfit k.column
    rw [Chunk.valuesOf_self, List.length_append, List.length_append] at hroom
    rw [List.flatMap_cons, applyAll_append, applyAll_chunk htype x k (by omega), Option.bind_some]
    exact ih _ hfit

omit htype in
theorem conveys_chunks {levels : Nat} {chunks : List Chunk}
    (h : ∀ k ∈ chunks, Conveys levels (readContents schema type) k.bytes k.updates) :
    Conveys levels (readContents schema type) (chunks.flatMap Chunk.bytes)
      (chunks.flatMap Chunk.updates) := by
  induction chunks with
  | nil => exact .nil
  | cons k chunks ih =>
    rw [List.flatMap_cons, List.flatMap_cons]
    exact (h k List.mem_cons_self).append (ih fun k hk => h k (List.mem_cons_of_mem _ hk))

theorem blank_eq : schema.blank type = Columns.empty.message := by
  rcases htype with rfl | rfl <;> rfl

theorem exists_columns {m : Message} (hm : m.Fits schema type) :
    ∃ x : Columns, x.Fit ∧ m.view schema (schema.layout type) = x.message := by
  have hcolumn : ∀ c : Column, ∃ values : List c.kind.Value,
      values.length ≤ Repeated.maxCapacity c.kind.storageSize ∧
        (m.view schema (schema.layout type)).slots[c.index]? =
          some (.scalars c.kind (.ofList values)) := by
    intro c
    have hf := c.placed htype
    obtain ⟨slot, hslot⟩ := hm.exists_slot hf.field
    have hcollects := (hm.atSlot hf.field hslot).holds.collects hf.repeated
    obtain ⟨d, rfl, hle⟩ := hcollects.exists_scalars hf.empty
    refine ⟨d.values, hle, ?_⟩
    rw [Message.getElem?_view hf.field, hslot]
    rfl
  obtain ⟨x, hx⟩ := Classical.axiomOfChoice hcolumn
  have hwords : (schema.layout type).words = 0 ∧ (schema.layout type).oneofs = [] ∧
      (schema.layout type).fields.length = 3 := by
    rcases htype with rfl | rfl <;> exact ⟨rfl, rfl, rfl⟩
  obtain ⟨hwords, honeofs, hfields⟩ := hwords
  have hpresence : m.presence = [] :=
    List.eq_nil_of_length_eq_zero (hm.coherent.presence_length.trans hwords)
  have hcases : m.cases = [] :=
    List.eq_nil_of_length_eq_zero (hm.coherent.cases_length.trans (by rw [honeofs]; rfl))
  have hlength : (m.view schema (schema.layout type)).slots.length =
      (schema.layout type).fields.length := by
    rw [Message.slots_view, slotWise_view.length_eq, hm.length]
  refine ⟨x, fun c => (hx c).1, Message.ext_slots ?_ ?_ hlength hfields.symm fun i f hf => ?_⟩
  · rw [Message.presence_view, hpresence]
    rfl
  · rw [Message.cases_view, hcases]
    rfl
  · have hi := (List.getElem?_eq_some_iff.1 hf).1
    rw [hfields] at hi
    obtain ⟨c, rfl⟩ := Column.exists_index hi
    rw [(hx c).2, Columns.getElem?_message x c]

/-- Chunks in a row are parsed as the lists that they add up to, if containers can hold them. -/
theorem parse_chunks {chunks : List Chunk}
    (h : ∀ k ∈ chunks, Conveys defaultRecursionLimit.toNat (readContents schema type) k.bytes
      k.updates) (order : FieldOrder) :
    (∃ n, Message.parse schema order type (chunks.flatMap Chunk.bytes) = .ok n ∧
        n.view schema (schema.layout type) = (gather chunks).message) ↔ (gather chunks).Fit := by
  constructor
  · rintro ⟨n, hparse, hview⟩
    have hblank : (schema.blank type).Fits schema type := .blank (valid type)
    have hn : n.Fits schema type :=
      (Message.parse_eq_ok.1 hparse).2 ▸ hblank.mergeBytes valid order defaultRecursionLimit _
    obtain ⟨x, hfit, hx⟩ := exists_columns htype hn
    rw [hview] at hx
    exact Columns.message_inj hx ▸ hfit
  · intro hfit
    have happly := applyAll_chunks htype .empty chunks hfit
    rw [← blank_eq htype] at happly
    obtain ⟨n, hparse, -, hview⟩ := parse_of_conveys valid (conveys_chunks h) happly order
    exact ⟨n, hparse, hview⟩

/-! ### Messages that are written -/

theorem encode_eq {m : Message} (hm : m.Fits schema type) {x : Columns}
    (hview : m.view schema (schema.layout type) = x.message) {order : FieldOrder} :
    m.encode schema order (schema.layout type) =
      x.message.encode schema order (schema.layout type) := by
  have hleaf : ∀ f ∈ (schema.layout type).fields, f.element.type? = none := by
    rcases htype with rfl | rfl <;> decide
  rw [← hview]
  refine Message.encode_congr Message.presence_view.symm Message.cases_view.symm
    (by rw [Message.slots_view, slotWise_view.length_eq]) fun i f slot slot' hf hs hs' => ?_
  rw [Message.getElem?_view hf, hs, Option.map_some, Option.some.injEq] at hs'
  subst hs'
  cases (hm.atSlot hf hs).shape with
  | sub _ ht | subs _ ht => cases (hleaf f (List.mem_of_getElem? hf)).symm.trans ht
  | scalar | text | blob | scalars | texts | blobs => rfl

theorem placed_eq (order : FieldOrder) :
    (schema.layout type).placed order =
      [Column.values, .colors, .ratios].map fun c => (c.field type, c.index) := by
  rcases htype with rfl | rfl <;> cases order <;> cbv

/-- A message is written as a chunk for each of its lists. -/
theorem exists_chunks (x : Columns) (order : FieldOrder)
    (hlength : type = Packed → ∀ c, ((x c).flatMap c.kind.write).length < 2 ^ 31) (levels : Nat) :
    ∃ chunks : List Chunk,
      x.message.encode schema order (schema.layout type) = chunks.flatMap Chunk.bytes ∧
      gather chunks = x ∧
      ∀ k ∈ chunks, Conveys levels (readContents schema type) k.bytes k.updates := by
  have hslots : x.message.slots.length = (schema.layout type).fields.length := by
    rcases htype with rfl | rfl <;> rfl
  refine ⟨[Column.values, .colors, .ratios].map fun c =>
    ⟨c, x c, x.message.written schema order (c.field type, c.index)⟩, ?_, ?_, ?_⟩
  · rw [Message.encode_eq_flatMap schema order hslots, placed_eq htype, List.flatMap_map,
      List.flatMap_map]
  · funext c
    cases c <;> exact List.append_nil _
  · intro k hk
    obtain ⟨c, -, rfl⟩ := List.mem_map.1 hk
    exact conveys_written htype (fun h => hlength h c) order levels

/-! ### Either type -/

theorem mergeMessage_eq (order order' : FieldOrder) :
    mergeMessage schema order type = mergeMessage schema order' Unpacked := by
  rcases htype with rfl | rfl
  · exact mergeMessage_of_repacks routed repacks order order'
  · exact (mergeMessage_of_repacks routed repacks.symm order order').trans
      (mergeMessage_of_repacks routed repacks order' order')

theorem mergeBytes_eq (order order' : FieldOrder) (limit : UInt32) (data : Bytes) (m : Message) :
    m.mergeBytes schema order type limit data = m.mergeBytes schema order' Unpacked limit data := by
  unfold Message.mergeBytes
  rw [mergeMessage_eq htype order order']

theorem parse_eq (order order' : FieldOrder) (data : Bytes) :
    Message.parse schema order type data = Message.parse schema order' Unpacked data := by
  unfold Message.parse
  rw [mergeBytes_eq htype order order', blank_eq htype, blank_eq (.inr rfl)]

theorem view_eq (m : Message) :
    m.view schema (schema.layout type) = m.view schema (schema.layout Unpacked) := by
  rcases htype with rfl | rfl
  · exact repacks.symm.view_eq schema m
  · rfl

/-! ### Runs that are too long -/

theorem mergePayload_long_run {nested : Nested} {c : Column} {n : Nat} (hlong : 2 ^ 31 ≤ n)
    (hn : n < 2 ^ 32) {m : Message} {slot : Slot Message} (hslot : m.slots[c.index]? = some slot)
    {r : Reader} {rest : Bytes} (hr : r.remaining = writeLength n ++ rest) :
    mergePayload schema nested (schema.layout type) c.runTag ⟨m, r⟩ =
      .error (.decode .negativeSize)
        ⟨m.setSlot c.index slot, r.advance (writeLength n).length⟩ := by
  unfold mergePayload
  rw [(c.placed htype).run]
  refine bind_of_error ?_
  rw [atSlot_apply hslot]
  unfold Merge.within Field.readPacked
  rw [bind_of_error (Merge.read_of_error (readLength_writeLength_of_long hlong hn hr))]

/-- A run is refused if its length takes 32 bits. -/
theorem parse_long_run (c : Column) {n : Nat} (hlong : 2 ^ 31 ≤ n) (hn : n < 2 ^ 32) (rest : Bytes)
    (order : FieldOrder) :
    Message.parse schema order type (writeTag c.runTag ++ (writeLength n ++ rest)) =
      .error (.decode .negativeSize) := by
  have hslot := Columns.getElem?_message .empty c
  rw [← blank_eq htype] at hslot
  have hremaining := Reader.remaining_ofBytes (writeTag c.runTag ++ (writeLength n ++ rest))
    defaultRecursionLimit
  have hreads : Reads 0 readTag (writeTag c.runTag) c.runTag := reads_readTag_writeTag c.number_tag.2
  obtain ⟨r, htag, halike⟩ := hreads _ _ hremaining (Nat.zero_le _)
  have hr : r.remaining = writeLength n ++ rest := by
    obtain ⟨tag, rfl⟩ := halike
    exact Reader.remaining_advance_append hremaining
  exact Message.parse_of_error
    (mergeMessage_of_error routed htag (mergePayload_long_run htype hlong hn hslot hr))

end Types

/-- `Packed` and `Unpacked` merge every input into every message alike, with the same outcome, the
same message left behind and the same reader. Any mixture of single values and packed runs is parsed
as the lists that it adds up to, unless containers cannot hold them. What one type writes the other
parses as the same lists, as long as the length of a packed run takes 31 bits. -/
theorem packed_unpacked_interchangeable (V W : Variant) :
    (∀ s, mergeMessage schema V.order Packed s = mergeMessage schema W.order Unpacked s) ∧
      (∀ (m : Message) (limit : UInt32) (data : Bytes),
        m.mergeBytes schema V.order Packed limit data =
          m.mergeBytes schema W.order Unpacked limit data) ∧
      ∀ type, type = Packed ∨ type = Unpacked →
        (∀ chunks : List Chunk, (∀ k ∈ chunks, k.Spelled) →
          ((∃ n, Message.parse schema V.order type (chunks.flatMap Chunk.bytes) = .ok n ∧
              n.view schema (schema.layout type) = (gather chunks).message) ↔
            (gather chunks).Fit)) ∧
        ∀ type', type' = Packed ∨ type' = Unpacked → ∀ m, Reachable schema V.order type m →
          ∃ x : Columns, m.view schema (schema.layout type) = x.message ∧
            ((type = Packed → ∀ c, ((x c).flatMap c.kind.write).length < 2 ^ 31) →
              ∃ n, Message.parse schema W.order type'
                  (m.encode schema V.order (schema.layout type)) = .ok n ∧
                n.view schema (schema.layout type') = x.message) := by
  refine ⟨fun s => congrFun (mergeMessage_eq (.inl rfl) V.order W.order) s,
    fun m limit data => mergeBytes_eq (.inl rfl) V.order W.order limit data m,
    fun type htype => ⟨fun chunks hchunks => ?_, fun type' htype' m hm => ?_⟩⟩
  · exact parse_chunks htype (fun k hk => (hchunks k hk).conveys htype _) V.order
  · have hfits := hm.fits valid
    obtain ⟨x, hfit, hview⟩ := exists_columns htype hfits
    refine ⟨x, hview, fun hlength => ?_⟩
    obtain ⟨chunks, hencode, rfl, hconveys⟩ :=
      exists_chunks htype x V.order hlength defaultRecursionLimit.toNat
    obtain ⟨n, hparse, hn⟩ := (parse_chunks htype hconveys W.order).2 hfit
    refine ⟨n, ?_, ?_⟩
    · rw [parse_eq htype' W.order W.order, ← parse_eq htype W.order W.order,
        encode_eq htype hfits hview, hencode, hparse]
    · rw [view_eq htype', ← view_eq htype, hn]

/-- A single value, an empty run, a run with a varint that is longer than it need be, and a color
that is not declared; and a message with such a color, written one by one and parsed as packed. -/
theorem packed_unpacked_interchangeable_mixture :
    (∃ n, Message.parse schema .declaration Packed
          [8, 0xAC, 2, 10, 0, 10, 3, 0x81, 0, 2, 16, 7] = .ok n ∧
        n.view schema (schema.layout Packed) =
          { presence := [], cases := [],
            slots :=
              [.scalars .int32 (.ofList ([300, 1, 2] : List Int32)),
                .scalars .int32 (.ofList ([7] : List Int32)), .scalars .double (.ofList [])] }) ∧
      ∃ n, Message.parse schema .ascending Packed
            (((schema.blank Unpacked).mergeBytes schema .declaration Unpacked 100
              [8, 0xAC, 2, 16, 7]).2.encode schema .declaration (schema.layout Unpacked)) = .ok n ∧
          n.view schema (schema.layout Packed) =
            ((schema.blank Unpacked).mergeBytes schema .declaration Unpacked 100
              [8, 0xAC, 2, 16, 7]).2.view schema (schema.layout Unpacked) := by
  have htypes := (packed_unpacked_interchangeable .declaration .ascending).2.2
  constructor
  · have hspelled : ∀ k ∈ ([⟨.values, ([300] : List Int32), [8, 0xAC, 2]⟩,
          ⟨.values, ([] : List Int32), [10, 0]⟩,
          ⟨.values, ([1, 2] : List Int32), [10, 3, 0x81, 0, 2]⟩,
          ⟨.colors, ([7] : List Int32), [16, 7]⟩] : List Chunk), k.Spelled := by
      simp only [List.forall_mem_cons]
      refine ⟨?_, ?_, ?_, ?_, nofun⟩
      · exact @Chunk.Spelled.value .values [8] [0xAC, 2] 8 (300 : Int32) rfl rfl ⟨300, rfl, rfl⟩
      · exact @Chunk.Spelled.run .values [10] [0] 10 0 [] rfl rfl rfl rfl (by decide) nofun
      · refine @Chunk.Spelled.run .values [10] [3] 10 3
          [([0x81, 0], (1 : Int32)), ([2], (2 : Int32))] rfl rfl rfl rfl (by decide) ?_
        simp only [List.forall_mem_cons]
        exact ⟨⟨1, rfl, rfl⟩, ⟨2, rfl, rfl⟩, nofun⟩
      · exact @Chunk.Spelled.value .colors [16] [7] 16 (7 : Int32) rfl rfl ⟨7, rfl, rfl⟩
    exact ((htypes Packed (.inl rfl)).1 _ hspelled).2 (fun c => by cases c <;> decide)
  · have hm : Reachable schema Variant.declaration.order Unpacked
        ((Action.merge 100 [8, 0xAC, 2, 16, 7]).run schema .declaration Unpacked
          (schema.blank Unpacked)).2 :=
      .run (.blank _) (.merge 100 [8, 0xAC, 2, 16, 7])
    obtain ⟨x, hx, hlossless⟩ := (htypes Unpacked (.inr rfl)).2 Packed (.inl rfl) _ hm
    obtain ⟨n, hparse, hn⟩ := hlossless nofun
    exact ⟨n, hparse, hn.trans hx.symm⟩

/-- Zeros in the first list. -/
def zeros (n : Nat) : Columns
  | .values => List.replicate n (0 : Int32)
  | .colors | .ratios => []

theorem encode_zeros {n : Nat} (hn : n ≠ 0) (order : FieldOrder) :
    (zeros n).message.encode schema order (schema.layout Packed) =
      writeTag Column.values.runTag ++
        (writeLength n ++ (List.replicate n (0 : Int32)).flatMap Scalar.int32.write) := by
  have hlength : (zeros n).message.slots.length = (schema.layout Packed).fields.length := rfl
  have hwritten : ∀ c : Column, (zeros n).message.written schema order (c.field Packed, c.index) =
      writePacked c.runTag c.kind.size c.kind.write (zeros n c) := by
    intro c
    rw [Message.written_of_repeated (c.placed (.inl rfl)).repeated ((zeros n).getElem?_message c)]
    cases c <;> rfl
  have hsize : packedSize Scalar.int32.size (List.replicate n (0 : Int32)) = n := by
    have hzero : Scalar.int32.size (0 : Int32) = 1 := by decide
    rw [packedSize, totalSize_eq_sum, List.map_replicate, hzero]
    simp
  rw [Message.encode_eq_flatMap schema order hlength, placed_eq (.inl rfl)]
  simp [hwritten, zeros, writePacked, hn, Column.kind, hsize]

/-- The length of `2 ^ 31` zeros is written, but neither type reads it. -/
theorem long_run_not_read_back :
    ∃ m, Reachable schema .declaration Packed m ∧
      m.view schema (schema.layout Packed) = (zeros (2 ^ 31)).message ∧
      ∀ type, type = Packed ∨ type = Unpacked →
        Message.parse schema .declaration type
          (m.encode schema .declaration (schema.layout Packed)) =
            .error (.decode .negativeSize) := by
  -- The number stays a variable, so that no list of that length is ever unfolded.
  obtain ⟨n, hn⟩ : ∃ n, n = 2 ^ 31 := ⟨_, rfl⟩
  rw [← hn]
  have hroom : n ≤ Repeated.maxCapacity 4 := by
    rw [hn]
    decide
  obtain ⟨c, hadd, hvalues⟩ := Repeated.exists_addLength_empty (0 : Int32) hroom
  have hrun : ((Action.scalars 0 .int32 (.addLength n)).run schema .declaration Packed
      (schema.blank Packed)).2 = (schema.blank Packed).setSlot 0 (.scalars .int32 c) := by
    show ((schema.blank Packed).editSlot 0 _ _ (Repeated.addLength 4 (0 : Int32) n)).2 = _
    unfold Message.editSlot
    rw [hadd]
  have hm : Reachable schema .declaration Packed
      ((schema.blank Packed).setSlot 0 (.scalars .int32 c)) :=
    hrun ▸ .run (.blank _) (.scalars 0 .int32 (.addLength n))
  have hview : ((schema.blank Packed).setSlot 0 (.scalars .int32 c)).view schema
      (schema.layout Packed) = (zeros n).message := by
    have hzeros : zeros n .values = c.values := hvalues.symm
    rw [Columns.message, hzeros]
    rfl
  refine ⟨_, hm, hview, fun type htype => ?_⟩
  rw [encode_eq (.inl rfl) (hm.fits valid) hview, encode_zeros (by omega)]
  exact parse_long_run htype .values (by omega) (by omega) _ _

end Conformance

end ProtoWire
