import ProtoWire.Proofs.Message.Concat
import ProtoWire.Proofs.Message.Strict

/-!
# Unknown fields

Records whose tags belong to no field are skipped, and nothing of them is kept.

* `readContents_of_unknown`: a message without known fields says nothing.
* `unknown_fields_transparent`: such records make no difference between others.
-/

namespace ProtoWire

variable {tag : UInt32} {r : Reader}

/-- The tags of all records ahead, as far as they can be skipped, are of a kind. -/
def Reader.Meets (Q : UInt32 → Prop) (r : Reader) : Prop :=
  ∀ w, r.Passes w → ∀ tag t, readTag w = .ok tag t → Q tag

namespace Reader.Meets

variable {Q : UInt32 → Prop} {t u : Reader}

theorem head (h : r.Meets Q) (htag : readTag r = .ok tag t) : Q tag :=
  h r (.here r) tag t htag

theorem tail (h : r.Meets Q) (htag : readTag r = .ok tag t) (hne : tag ≠ 0)
    (hskip : skipField tag t = .ok true u) : u.Meets Q :=
  fun w hpasses => h w (.record htag hne hskip hpasses)

theorem cons (htag : readTag r = .ok tag t) (hhead : Q tag)
    (htail : ∀ u, tag ≠ 0 → skipField tag t = .ok true u → u.Meets Q) : r.Meets Q := by
  intro w hpasses tag' t' htag'
  cases hpasses with
  | here =>
    cases htag.symm.trans htag'
    exact hhead
  | record htag'' hne hskip hpasses =>
    cases htag.symm.trans htag''
    exact htail _ hne hskip w hpasses tag' t' htag'

end Reader.Meets

theorem Layout.route_eq_none {L : Layout} (h : tag ∉ L.tags) : L.route tag = none := by
  cases hroute : L.route tag with
  | none => rfl
  | some target =>
    obtain ⟨p, _⟩ := target
    obtain ⟨hp, hcases⟩ := Layout.route_eq_some hroute
    refine absurd (List.mem_append.2 ?_) h
    rcases hcases with ⟨htag, -⟩ | ⟨htag, -⟩
    · exact .inl (List.mem_map.2 ⟨p.1, List.mem_of_getElem? hp, htag⟩)
    · exact .inr (List.mem_filterMap.2 ⟨p.1, List.mem_of_getElem? hp, htag⟩)

theorem readPayload_of_route_eq_none {read : Reading} {L : Layout} {r' : Reader} {more : Bool}
    (hroute : L.route tag = none) (hne : tag ≠ 0) (hskip : skipField tag r = .ok more r') :
    readPayload read L tag r = .ok ([], more) r' := by
  unfold readPayload
  simp only [hroute, if_neg hne]
  rw [bind_of_ok hskip]
  rfl

section Unknown

variable {S : Schema} (hS : S.Valid) {type : TypeId}

include hS

/-- Records that can be skipped say nothing if none of them has a field. By induction on the bytes
left, of which each record takes some. -/
theorem readContents_of_unknown {r' : Reader} (hskip : skipMessage r = .ok () r')
    (hunknown : r.Meets (· ∉ (S.layout type).tags)) : readContents S type r = .ok [] r' := by
  induction hleft : r.bytesLeft using Nat.strongRecOn generalizing r with
  | ind n ih =>
    subst hleft
    rw [skipMessage_apply] at hskip
    obtain ⟨tag, t, htag, hskip⟩ := bind_eq_ok.1 hskip
    rw [readContents_apply hS, bind_of_ok htag]
    unfold skipFrom at hskip
    by_cases hne : tag = 0
    · subst hne
      cases hskip
      exact readFrom_zero (hS type) _
    · rw [if_neg hne] at hskip
      obtain ⟨more, u, hmore, hskip⟩ := bind_eq_ok.1 hskip
      have hroute := Layout.route_eq_none (hunknown.head htag)
      rw [readFrom_apply (skippable_readContents hS) (hS type),
        bind_of_ok (readPayload_of_route_eq_none hroute hne hmore)]
      cases more with
      | false =>
        cases hskip
        rfl
      | true =>
        have hlt := bytesLeft_readTag htag hne
        have hle : u.bytesLeft ≤ t.bytesLeft := (advances_skipField tag hmore).bytesLeft_le
        have hrest := ih u.bytesLeft (Nat.lt_of_le_of_lt hle hlt) hskip
          (hunknown.tail htag hne hmore) rfl
        rw [readContents_apply hS] at hrest
        simp only [if_true]
        rw [bind_of_ok hrest]
        rfl

end Unknown

section Conformance

open Conformance (schema)

/-- Records that can be skipped, and whose tags no field of the message is read from, make no
difference behind what can be merged: with and without them the rest can be merged or not, and the
message that is left is the same. -/
theorem unknown_fields_transparent (V : Conformance.Variant) (type : TypeId) {m : Message}
    (hm : Reachable schema V.order type m) (limit : UInt32) (a u b : Bytes)
    (ha : (m.mergeBytes schema V.order type limit a).1 = .ok ()) {r : Reader}
    (hskip : skipMessage { Reader.ofBytes u with recursionLimit := limit } = .ok () r)
    (hend : r.lastTag = 0)
    (hunknown : Reader.Meets (· ∉ (schema.layout type).tags)
      { Reader.ofBytes u with recursionLimit := limit }) :
    ((m.mergeBytes schema V.order type limit (a ++ u ++ b)).1 = .ok () ↔
        (m.mergeBytes schema V.order type limit (a ++ b)).1 = .ok ()) ∧
      ((m.mergeBytes schema V.order type limit (a ++ b)).1 = .ok () →
        Message.Same schema type (m.mergeBytes schema V.order type limit (a ++ u ++ b)).2
          (m.mergeBytes schema V.order type limit (a ++ b)).2) := by
  have hS := Conformance.valid
  have hfits := hm.fits hS
  obtain ⟨us, hus, -⟩ := Option.bind_eq_some_iff.1 ((hfits.mergeBytes_eq_ok hS).1 ⟨ha, rfl⟩)
  have hnothing : readBytes schema type limit u = some [] :=
    readBytes_eq_ok.2 ⟨r, readContents_of_unknown hS hskip hunknown, hend⟩
  have hread : readBytes schema type limit (a ++ u ++ b) =
      readBytes schema type limit (a ++ b) := by
    have hboth := readBytes_append hS hus u
    rw [hnothing, Option.map_some, List.append_nil] at hboth
    rw [readBytes_append hS hboth, readBytes_append hS hus]
  have hsame : ∀ {data data' : Bytes},
      readBytes schema type limit data = readBytes schema type limit data' →
      (m.mergeBytes schema V.order type limit data).1 = .ok () →
        (m.mergeBytes schema V.order type limit data').1 = .ok () ∧
          Message.Same schema type (m.mergeBytes schema V.order type limit data).2
            (m.mergeBytes schema V.order type limit data').2 :=
    fun heq hok => hfits.mergeBytes_of_bind_eq hS hfits (by rw [heq]) hok
  have hiff : (m.mergeBytes schema V.order type limit (a ++ u ++ b)).1 = .ok () ↔
      (m.mergeBytes schema V.order type limit (a ++ b)).1 = .ok () :=
    ⟨fun hok => (hsame hread hok).1, fun hok => (hsame hread.symm hok).1⟩
  exact ⟨hiff, fun hok => (hsame hread (hiff.2 hok)).2⟩

/-- A number is set, and then another one. Between them stand a field of the wrong wire type and a
group that is unknown. -/
theorem unknown_fields_transparent_choice :
    ((schema.blank Conformance.Choice).mergeBytes schema .unordered Conformance.Choice 100
        ([8, 5] ++ [10, 1, 65, 51, 8, 1, 52] ++ [32, 7])).1 = .ok () ∧
      Message.Same schema Conformance.Choice
        ((schema.blank Conformance.Choice).mergeBytes schema .unordered Conformance.Choice 100
          ([8, 5] ++ [10, 1, 65, 51, 8, 1, 52] ++ [32, 7])).2
        ((schema.blank Conformance.Choice).mergeBytes schema .unordered Conformance.Choice 100
          ([8, 5] ++ [32, 7])).2 := by
  have hfirst : ((schema.blank Conformance.Choice).mergeBytes schema .unordered Conformance.Choice
      100 [8, 5]).1 = .ok () := by cbv
  have hboth : ((schema.blank Conformance.Choice).mergeBytes schema .unordered Conformance.Choice
      100 ([8, 5] ++ [32, 7])).1 = .ok () := by cbv
  let r : Reader := { Reader.ofBytes [10, 1, 65, 51, 8, 1, 52] with recursionLimit := 100 }
  have hskip : skipMessage r = .ok () { r with pos := 7, lastTag := 0 } := by cbv
  have hunknown : r.Meets (· ∉ (schema.layout Conformance.Choice).tags) := by
    have htext : readTag r = .ok 10 { r with pos := 1, lastTag := 10 } := by cbv
    refine .cons htext (by decide) fun u _ hu => ?_
    have hskip : skipField 10 { r with pos := 1, lastTag := 10 } =
      .ok true { r with pos := 3, lastTag := 10 } := by cbv
    cases hu.symm.trans hskip
    have hgroup : readTag { r with pos := 3, lastTag := 10 } =
      .ok 51 { r with pos := 4, lastTag := 51 } := by cbv
    refine .cons hgroup (by decide) fun u _ hu => ?_
    have hskip : skipField 51 { r with pos := 4, lastTag := 51 } =
      .ok true { r with pos := 7, lastTag := 52 } := by cbv
    cases hu.symm.trans hskip
    have hend : readTag { r with pos := 7, lastTag := 52 } =
      .ok 0 { r with pos := 7, lastTag := 0 } := by cbv
    exact .cons hend (by decide) fun _ hne => absurd rfl hne
  have h := unknown_fields_transparent .unordered Conformance.Choice (.blank _) 100 [8, 5]
    [10, 1, 65, 51, 8, 1, 52] [32, 7] hfirst hskip rfl hunknown
  exact ⟨h.1.2 hboth, h.2 hboth⟩

end Conformance

end ProtoWire
