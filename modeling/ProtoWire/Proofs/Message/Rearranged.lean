import ProtoWire.Proofs.Message.Commute
import ProtoWire.Proofs.Message.Concat
import ProtoWire.Proofs.Wire.Complete

/-!
# The order of records of unrelated fields does not matter

* `readBytes_flatMap`: what records say, one behind the other.
* `parse_of_rearranged_records`: records that are rearranged are parsed as the same message.
-/

namespace ProtoWire

variable {rs rs' : List WireRecord} {L : Layout} {S : Schema} {type : TypeId}

/-- Whether the number is that of a member of the oneof. -/
def Layout.isMember (L : Layout) (oneof : Nat) (number : UInt32) : Bool :=
  L.fields.any fun f => f.isMemberOf oneof && f.number == number

/-- The same records, in an order that keeps those of each field and those of the members of each
oneof in order. -/
structure Rearranged (L : Layout) (rs rs' : List WireRecord) : Prop where
  perm : rs.Perm rs'
  field : ∀ number, rs.filter (·.number == number) = rs'.filter (·.number == number)
  oneof : ∀ oneof,
    rs.filter (L.isMember oneof ·.number) = rs'.filter (L.isMember oneof ·.number)

theorem Rearranged.symm (h : Rearranged L rs rs') :
    Rearranged L rs' rs where
  perm := h.perm.symm
  field number := (h.field number).symm
  oneof oneof := (h.oneof oneof).symm

/-! ### Complete records -/

section Records

variable (hS : S.Valid) {limit : UInt32} {rec : WireRecord} {us : List Update}

/-- What a record says is for the field with its number. -/
theorem Layout.Valid.number_of_readPayload (hL : L.Valid) {read : Reading} {tag : UInt32}
    {r r' : Reader} {more : Bool} (h : readPayload read L tag r = .ok (us, more) r') :
    ∀ u ∈ us, ∃ f, L.fields[u.index]? = some f ∧ f.number = Tag.number tag := by
  unfold readPayload at h
  cases hroute : L.route tag with
  | none =>
    simp only [hroute] at h
    split at h
    · cases h
      exact nofun
    · obtain ⟨_, _, -, h⟩ := bind_eq_ok.1 h
      cases h
      exact nofun
  | some target =>
    obtain ⟨p, form⟩ := target
    have hp := (L.route_eq_some hroute).1
    have hnumber : p.1.number = Tag.number tag := by
      rw [Layout.tag_of_route hroute]
      exact (Tag.number_make (hL.number_lt _ (List.mem_of_getElem? hp)) _).symm
    have hindex : ∀ u : Update, u.index = p.2 →
        ∃ f, L.fields[u.index]? = some f ∧ f.number = Tag.number tag :=
      fun u hu => ⟨p.1, hu ▸ hp, hnumber⟩
    cases form with
    | value =>
      simp only [hroute] at h
      obtain ⟨u, _, hu, h⟩ := bind_eq_ok.1 h
      cases h
      have hu := hindex u (p.index_readUpdate hu)
      split
      · exact List.forall_mem_singleton.2 hu
      · exact nofun
    | element =>
      simp only [hroute] at h
      obtain ⟨u, _, hu, h⟩ := bind_eq_ok.1 h
      cases h
      exact List.forall_mem_singleton.2 (hindex u (p.index_readUpdate hu))
    | run =>
      simp only [hroute] at h
      obtain ⟨us', _, hus, h⟩ := bind_eq_ok.1 h
      cases h
      exact fun u hu => hindex u (p.index_readPackedUpdates hus u hu)

include hS

/-- Where a complete record is read, it is read as a whole, for the field with its number. -/
theorem WireRecord.Complete.exists_conveys (hrec : rec.Complete) {r r' : Reader} {rest : Bytes}
    {vs : List Update} (hsound : r.Sound) (hr : r.remaining = rec.bytes ++ rest)
    (h : readContents S type r = .ok vs r') :
    ∃ us, Conveys r.levels (readContents S type) rec.bytes us ∧
      ∀ u ∈ us, ∃ f, (S.layout type).fields[u.index]? = some f ∧ f.number = rec.number := by
  have hread := skippable_readContents hS
  rw [readContents_apply hS] at h
  obtain ⟨tag, r₁, htag, h⟩ := bind_eq_ok.1 h
  rw [WireRecord.bytes, List.append_assoc] at hr
  obtain ⟨rfl, hne, halike⟩ := readTag_of_spells hrec.spells hr htag
  have hr₁ := halike.remaining_eq.trans (Reader.remaining_advance_append hr)
  have hsound₁ := (hsound.advance _).alike halike
  rw [readFrom_apply hread (hS type)] at h
  obtain ⟨⟨us, more⟩, r₂, hpayload, -⟩ := bind_eq_ok.1 h
  -- the payload that was read ends where skipping ends
  obtain ⟨r₃, hskip, halike₂, -⟩ := skipField_readPayload hread (hS type) hne hpayload
  obtain ⟨rfl, halike₃⟩ := hrec.whole.skipField rfl hrec.type_eq hsound₁ hr₁ hskip
  obtain ⟨payload, rest', hr₁', hreads⟩ := localAt_readPayload hS
    (fun type t _ => contentsAt t hS type) (fun type t _ => contentsAt t Schema.valid_void type)
    type _ hsound₁ _ _ hpayload
  obtain rfl : payload = rec.payload := by
    have halike₄ := hreads.alike hsound₁ hr₁' hpayload
    have hlength : payload.length = rec.payload.length := by
      obtain ⟨_, rfl⟩ := halike₄
      obtain ⟨_, rfl⟩ := halike₂
      obtain ⟨_, heq⟩ := halike₃
      have hpos : r₁.pos + payload.length = r₁.pos + rec.payload.length := congrArg Reader.pos heq
      omega
    exact (List.append_inj (hr₁'.symm.trans hr₁) hlength).1
  refine ⟨us, ?_, (hS type).number_of_readPayload hpayload⟩
  have hlevels : r₁.levels = r.levels := halike.levels_eq
  rw [hlevels] at hreads
  exact (conveys_record (hS type) hread (reads_readTag hrec.spells hrec.number_ne) hreads).congr
    (readContents_apply hS type)

/-- What a complete record says is for the field with its number. -/
theorem WireRecord.Complete.number_of_readBytes (hrec : rec.Complete)
    (h : readBytes S type limit rec.bytes = some us) :
    ∀ u ∈ us, ∃ f, (S.layout type).fields[u.index]? = some f ∧ f.number = rec.number := by
  obtain ⟨r', hcontents, -⟩ := readBytes_eq_ok.1 h
  obtain ⟨us', hconveys, hnumber⟩ := hrec.exists_conveys hS (Reader.sound_ofBytes _ limit)
    ((Reader.remaining_ofBytes _ limit).trans (List.append_nil _).symm) hcontents
  have h' : readBytes S type limit rec.bytes = some us' := readBytes_of_conveys hS hconveys
  cases h.symm.trans h'
  exact hnumber

/-- A complete record is read as if it stood alone. -/
theorem WireRecord.Complete.readBytes_append (hrec : rec.Complete) (b : Bytes) :
    readBytes S type limit (rec.bytes ++ b) =
      (readBytes S type limit rec.bytes).bind fun us =>
        (readBytes S type limit b).map (us ++ ·) := by
  cases h : readBytes S type limit rec.bytes with
  | some us => exact ProtoWire.readBytes_append hS h b
  | none =>
    cases hboth : readBytes S type limit (rec.bytes ++ b) with
    | none => rfl
    | some vs =>
      obtain ⟨r', hcontents, -⟩ := readBytes_eq_ok.1 hboth
      obtain ⟨us, hconveys, -⟩ := hrec.exists_conveys hS (Reader.sound_ofBytes _ limit)
        (Reader.remaining_ofBytes _ limit) hcontents
      have h' : readBytes S type limit rec.bytes = some us := readBytes_of_conveys hS hconveys
      cases h.symm.trans h'

theorem readBytes_flatMap (hrs : ∀ rec ∈ rs, rec.Complete) :
    readBytes S type limit (rs.flatMap WireRecord.bytes) = some us ↔
      (∀ rec ∈ rs, (readBytes S type limit rec.bytes).isSome) ∧
        rs.flatMap (fun rec => (readBytes S type limit rec.bytes).getD []) = us := by
  induction rs generalizing us with
  | nil =>
    have hnil : readBytes S type limit [] = some [] := readBytes_of_conveys hS .nil
    simp [hnil]
  | cons rec rs ih =>
    rw [List.forall_mem_cons] at hrs
    rw [List.flatMap_cons, hrs.1.readBytes_append hS, List.forall_mem_cons, List.flatMap_cons]
    cases h : readBytes S type limit rec.bytes with
    | none => simp
    | some us₁ =>
      simp only [Option.bind_some, Option.map_eq_some_iff, Option.isSome_some, true_and,
        Option.getD_some]
      constructor
      · rintro ⟨us₂, hus₂, rfl⟩
        obtain ⟨hall, rfl⟩ := (ih hrs.2).1 hus₂
        exact ⟨hall, rfl⟩
      · rintro ⟨hall, rfl⟩
        exact ⟨_, (ih hrs.2).2 ⟨hall, rfl⟩, rfl⟩

end Records

/-! ### Rearranging -/

/-- Numbers of different fields, not of members of one oneof. -/
def Layout.Strangers (L : Layout) (a b : UInt32) : Prop :=
  a ≠ b ∧ ∀ oneof, L.isMember oneof a = true → L.isMember oneof b = false

section Rearranging

variable (hL : L.Valid) {rec : WireRecord}

theorem Layout.isMember_eq_true {oneof : Nat} {number : UInt32} :
    L.isMember oneof number = true ↔
      ∃ f ∈ L.fields, f.oneof? = some oneof ∧ f.number = number := by
  simp only [Layout.isMember, List.any_eq_true, Bool.and_eq_true, beq_iff_eq,
    Field.isMemberOf_eq_true]

theorem Layout.Strangers.apart {a b : UInt32} (h : L.Strangers a b) {i j : Nat} {f g : Field}
    (hf : L.fields[i]? = some f) (hg : L.fields[j]? = some g) (ha : f.number = a)
    (hb : g.number = b) : L.Apart i j := by
  refine ⟨?_, fun f' g' hf' hg' => ?_⟩
  · rintro rfl
    cases hf.symm.trans hg
    exact h.1 (ha.symm.trans hb)
  · cases hf.symm.trans hf'
    cases hg.symm.trans hg'
    cases honeof : f.oneof? with
    | none => exact .inl rfl
    | some oneof =>
      refine .inr fun heq => ?_
      have hmember := Layout.isMember_eq_true.2 ⟨f, List.mem_of_getElem? hf, honeof, ha⟩
      have hmember' := Layout.isMember_eq_true.2 ⟨g, List.mem_of_getElem? hg, heq.symm, hb⟩
      exact Bool.false_ne_true ((h.2 oneof hmember).symm.trans hmember')

include hL in
/-- A number belongs to one oneof at most. -/
theorem Layout.Valid.oneof_unique {number : UInt32} {oneof oneof' : Nat}
    (h : L.isMember oneof number = true) (h' : L.isMember oneof' number = true) :
    oneof = oneof' := by
  obtain ⟨f, hf, honeof, hnumber⟩ := Layout.isMember_eq_true.1 h
  obtain ⟨g, hg, honeof', hnumber'⟩ := Layout.isMember_eq_true.1 h'
  cases hL.field_eq hf hg (hnumber.trans hnumber'.symm)
  exact Option.some.inj (honeof.symm.trans honeof')

/-- Taking a record out of its place keeps the order of those that a predicate picks, if the ones
before it are not picked with it. -/
theorem filter_split {q : WireRecord → Bool} {pre post : List WireRecord}
    (h : (rec :: rs).filter q = (pre ++ rec :: post).filter q)
    (hpre : q rec = true → ∀ s ∈ pre, q s = false) : rs.filter q = (pre ++ post).filter q := by
  rw [List.filter_append] at h ⊢
  cases hq : q rec with
  | false =>
    rwa [List.filter_cons_of_neg (by simp [hq]), List.filter_cons_of_neg (by simp [hq])] at h
  | true =>
    have hnil : pre.filter q = [] := List.filter_eq_nil_iff.2 fun s hs => by simp [hpre hq s hs]
    rw [hnil, List.filter_cons_of_pos hq, List.filter_cons_of_pos hq, List.nil_append] at h
    rw [hnil, List.nil_append]
    exact List.tail_eq_of_cons_eq h

include hL in
/-- The first record stands behind strangers only. -/
theorem Rearranged.exists_strangers (h : Rearranged L (rec :: rs) rs') :
    ∃ pre post, rs' = pre ++ rec :: post ∧ ∀ s ∈ pre, L.Strangers rec.number s.number := by
  by_cases hmember : ∃ oneof, L.isMember oneof rec.number = true
  · obtain ⟨oneof, hmember⟩ := hmember
    have hfilter := h.oneof oneof
    rw [List.filter_cons, if_pos hmember, eq_comm] at hfilter
    obtain ⟨pre, post, rfl, hpre, -, -⟩ := List.filter_eq_cons_iff.1 hfilter
    refine ⟨pre, post, rfl, fun s hs => ⟨fun heq => ?_, fun oneof' hmember' => ?_⟩⟩
    · exact hpre s hs (heq ▸ hmember)
    · cases hL.oneof_unique hmember hmember'
      exact Bool.eq_false_iff.2 (hpre s hs)
  · have hfilter := h.field rec.number
    rw [List.filter_cons, if_pos (beq_self_eq_true _), eq_comm] at hfilter
    obtain ⟨pre, post, rfl, hpre, -, -⟩ := List.filter_eq_cons_iff.1 hfilter
    refine ⟨pre, post, rfl, fun s hs => ⟨fun heq => ?_, fun oneof hmember' => ?_⟩⟩
    · exact hpre s hs (by simp [heq])
    · exact absurd ⟨oneof, hmember'⟩ hmember

theorem Rearranged.tail {pre post : List WireRecord}
    (h : Rearranged L (rec :: rs) (pre ++ rec :: post))
    (hpre : ∀ s ∈ pre, L.Strangers rec.number s.number) : Rearranged L rs (pre ++ post) where
  perm := (h.perm.trans List.perm_middle).cons_inv
  field number := by
    refine filter_split (h.field number) fun hrec s hs => ?_
    rw [beq_iff_eq] at hrec
    simpa [← hrec] using Ne.symm (hpre s hs).1
  oneof oneof := filter_split (h.oneof oneof) fun hrec s hs => (hpre s hs).2 oneof hrec

/-- Strangers that stand side by side may change places. -/
theorem Rearranged.swap {a b : WireRecord} (h : L.Strangers a.number b.number)
    (rs : List WireRecord) : Rearranged L (a :: b :: rs) (b :: a :: rs) := by
  have hfilter : ∀ q : WireRecord → Bool, (q a = true → q b = false) →
      (a :: b :: rs).filter q = (b :: a :: rs).filter q := by
    intro q hq
    cases ha : q a with
    | false => cases hb : q b <;> simp [ha, hb]
    | true => simp [ha, hq ha]
  refine ⟨.swap b a rs, fun number => hfilter _ fun ha => ?_, fun oneof => hfilter _ (h.2 oneof)⟩
  rw [beq_iff_eq] at ha
  simpa [← ha] using Ne.symm h.1

end Rearranging

/-- Records that are rearranged make the same of a view. -/
theorem applyAll_rearranged (hL : (S.layout type).Valid) (h : Rearranged (S.layout type) rs rs')
    {say : WireRecord → List Update}
    (hsay : ∀ rec ∈ rs, ∀ u ∈ say rec, ∃ f, (S.layout type).fields[u.index]? = some f ∧
      f.number = rec.number) (v : Message) :
    applyAll S type (rs.flatMap say) v = applyAll S type (rs'.flatMap say) v := by
  induction rs generalizing rs' v with
  | nil => rw [h.perm.nil_eq]
  | cons rec rs ih =>
    obtain ⟨pre, post, rfl, hpre⟩ := h.exists_strangers hL
    have htail := h.tail hpre
    -- the records before it are among those whose fields are known
    have hmem : ∀ s ∈ pre, s ∈ rec :: rs := fun s hs =>
      h.perm.mem_iff.2 (List.mem_append_left _ hs)
    have hapart : ∀ u ∈ say rec, ∀ u' ∈ pre.flatMap say,
        (S.layout type).Apart u.index u'.index := by
      intro u hu u' hu'
      obtain ⟨s, hs, hu'⟩ := List.mem_flatMap.1 hu'
      obtain ⟨f, hf, hnumber⟩ := hsay rec List.mem_cons_self u hu
      obtain ⟨g, hg, hnumber'⟩ := hsay s (hmem s hs) u' hu'
      exact (hpre s hs).apart hf hg hnumber hnumber'
    calc applyAll S type ((rec :: rs).flatMap say) v
        = (applyAll S type (say rec) v).bind (applyAll S type (rs.flatMap say)) := by
          rw [List.flatMap_cons, applyAll_append]
      _ = (applyAll S type (say rec) v).bind (applyAll S type ((pre ++ post).flatMap say)) := by
          exact congrArg _ (funext fun w =>
            ih htail (fun s hs => hsay s (List.mem_cons_of_mem _ hs)) w)
      _ = (applyAll S type (say rec ++ pre.flatMap say) v).bind
            (applyAll S type (post.flatMap say)) := by
          rw [← applyAll_append, List.flatMap_append, ← List.append_assoc, applyAll_append]
      _ = (applyAll S type (pre.flatMap say ++ say rec) v).bind
            (applyAll S type (post.flatMap say)) := by
          rw [applyAll_comm hapart]
      _ = applyAll S type ((pre ++ rec :: post).flatMap say) v := by
          rw [← applyAll_append, List.flatMap_append, List.flatMap_cons, List.append_assoc]

/-- What is read from records that are rearranged makes the same of a view. -/
theorem bind_readBytes_rearranged (hS : S.Valid) (hrs : ∀ rec ∈ rs, rec.Complete)
    (h : Rearranged (S.layout type) rs rs') {limit : UInt32} {v w : Message}
    (hw : (readBytes S type limit (rs.flatMap WireRecord.bytes)).bind
      (fun us => applyAll S type us v) = some w) :
    (readBytes S type limit (rs'.flatMap WireRecord.bytes)).bind
      (fun us => applyAll S type us v) = some w := by
  obtain ⟨us, hus, happly⟩ := Option.bind_eq_some_iff.1 hw
  obtain ⟨hall, rfl⟩ := (readBytes_flatMap hS hrs).1 hus
  have hrs' : ∀ rec ∈ rs', rec.Complete := fun rec hrec => hrs rec (h.perm.mem_iff.2 hrec)
  have hall' : ∀ rec ∈ rs', (readBytes S type limit rec.bytes).isSome :=
    fun rec hrec => hall rec (h.perm.mem_iff.2 hrec)
  have hsay : ∀ rec ∈ rs, ∀ u ∈ (readBytes S type limit rec.bytes).getD [],
      ∃ f, (S.layout type).fields[u.index]? = some f ∧ f.number = rec.number := by
    intro rec hrec u hu
    obtain ⟨us, hus⟩ := Option.isSome_iff_exists.1 (hall rec hrec)
    rw [hus] at hu
    exact (hrs rec hrec).number_of_readBytes hS hus u hu
  rw [(readBytes_flatMap hS hrs').2 ⟨hall', rfl⟩, Option.bind_some]
  exact (applyAll_rearranged (hS type) h hsay v).symm.trans happly

section Conformance

open Conformance (schema)

/-- Complete records are parsed in any order that keeps those of each field and those of the members
of each oneof in order, or in none; the messages are the same. -/
theorem parse_of_rearranged_records (V : Conformance.Variant) (type : TypeId)
    {rs rs' : List WireRecord} (hrs : ∀ rec ∈ rs, rec.Complete)
    (h : Rearranged (schema.layout type) rs rs') :
    ((∃ m, Message.parse schema V.order type (rs.flatMap WireRecord.bytes) = .ok m) ↔
        ∃ n, Message.parse schema V.order type (rs'.flatMap WireRecord.bytes) = .ok n) ∧
      ∀ m n, Message.parse schema V.order type (rs.flatMap WireRecord.bytes) = .ok m →
        Message.parse schema V.order type (rs'.flatMap WireRecord.bytes) = .ok n →
          Message.Same schema type m n := by
  have hS := Conformance.valid
  have hblank : (schema.blank type).Fits schema type := .blank (hS type)
  have hrs' : ∀ rec ∈ rs', rec.Complete := fun rec hrec => hrs rec (h.perm.mem_iff.2 hrec)
  have heq : (readBytes schema type defaultRecursionLimit (rs.flatMap WireRecord.bytes)).bind
        (fun us => applyAll schema type us ((schema.blank type).view schema (schema.layout type))) =
      (readBytes schema type defaultRecursionLimit (rs'.flatMap WireRecord.bytes)).bind
        (fun us => applyAll schema type us
          ((schema.blank type).view schema (schema.layout type))) :=
    Option.ext fun _ => ⟨bind_readBytes_rearranged hS hrs h,
      bind_readBytes_rearranged hS hrs' h.symm⟩
  refine ⟨⟨?_, ?_⟩, ?_⟩
  · rintro ⟨m, hm⟩
    have hok := hblank.mergeBytes_of_bind_eq hS hblank heq (Message.parse_eq_ok.1 hm).1
    exact ⟨_, Message.parse_eq_ok.2 ⟨hok.1, rfl⟩⟩
  · rintro ⟨n, hn⟩
    have hok := hblank.mergeBytes_of_bind_eq hS hblank heq.symm (Message.parse_eq_ok.1 hn).1
    exact ⟨_, Message.parse_eq_ok.2 ⟨hok.1, rfl⟩⟩
  · intro m n hm hn
    obtain ⟨hok, rfl⟩ := Message.parse_eq_ok.1 hm
    obtain ⟨-, rfl⟩ := Message.parse_eq_ok.1 hn
    exact (hblank.mergeBytes_of_bind_eq hS hblank heq hok).2

/-- A group that is not known, a member of a oneof, and a field behind them. The first two change
places. -/
theorem parse_of_rearranged_records_choice :
    ∃ m n,
      Message.parse schema .unordered Conformance.Choice [123, 8, 1, 124, 8, 5, 32, 9] = .ok m ∧
      Message.parse schema .unordered Conformance.Choice [8, 5, 123, 8, 1, 124, 32, 9] = .ok n ∧
      Message.Same schema Conformance.Choice m n := by
  have hvarint : ∀ tag value : UInt8,
      (⟨[tag], tag.toUInt64, .varint, [value]⟩ : WireRecord).Tagged →
      Varint.Spells [value] value.toUInt64 →
      (⟨[tag], tag.toUInt64, .varint, [value]⟩ : WireRecord).Complete :=
    fun tag value htag hvalue => ⟨htag, .varint hvalue⟩
  have hinner := hvarint 8 1 ⟨rfl, by decide, by cbv⟩ rfl
  have htrailer : Varint.Spells [124] 124 := rfl
  have hgroup : (⟨[123], 123, .startGroup, [8, 1, 124]⟩ : WireRecord).Complete :=
    ⟨⟨rfl, by decide, by cbv⟩, .group (List.forall_mem_singleton.2 hinner.toTagged)
      (List.forall_mem_singleton.2 hinner.whole) htrailer (by decide)⟩
  have hnumber := hvarint 8 5 ⟨rfl, by decide, by cbv⟩ rfl
  have hafter := hvarint 32 9 ⟨rfl, by decide, by cbv⟩ rfl
  have hstrangers : (schema.layout Conformance.Choice).Strangers 15 1 := by
    refine ⟨by decide, fun oneof hmember => ?_⟩
    obtain ⟨f, hf, -, hnumber⟩ := Layout.isMember_eq_true.1 hmember
    have hother : ∀ f ∈ (schema.layout Conformance.Choice).fields, f.number ≠ 15 := by decide
    exact absurd hnumber (hother f hf)
  have hrecords := List.forall_mem_cons.2 ⟨hgroup, List.forall_mem_cons.2 ⟨hnumber,
    List.forall_mem_singleton.2 hafter⟩⟩
  have hsame := parse_of_rearranged_records .unordered Conformance.Choice hrecords
    (.swap hstrangers _)
  have hok : ((schema.blank Conformance.Choice).mergeBytes schema .unordered Conformance.Choice
      defaultRecursionLimit [123, 8, 1, 124, 8, 5, 32, 9]).1 = .ok () := by cbv
  have hparse := Message.parse_eq_ok.2 ⟨hok, rfl⟩
  obtain ⟨n, hn⟩ := hsame.1.1 ⟨_, hparse⟩
  exact ⟨_, n, hparse, hn, hsame.2 _ n hparse hn⟩

end Conformance

end ProtoWire
