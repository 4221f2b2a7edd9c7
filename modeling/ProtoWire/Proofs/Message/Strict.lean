import ProtoWire.Proofs.Message.Reading

/-!
# Merging is as strict as skipping

* `Reader.Passes`: a later record of the same message, found by skipping those before it.
* `exists_readRecords_of_passes`: records that can be read can be read from each later one on.
* `mergeMessage_as_strict_as_skipping`: what can be merged can be skipped, with the same reader
  afterwards, and no look ahead on the way fails.
-/

namespace ProtoWire

/-- The second reader stands before a record, or at the end, of the message whose records the first
one stands before. -/
inductive Reader.Passes : Reader → Reader → Prop
  | here (r : Reader) : Passes r r
  | record {r t u w : Reader} {tag : UInt32} (htag : readTag r = .ok tag t) (hne : tag ≠ 0)
      (hskip : skipField tag t = .ok true u) (h : Passes u w) : Passes r w

section Records

variable {read : Reading} (hread : Skippable read) {L : Layout} (hL : L.Valid)

include hread hL

/-- Records that can be read can be read from each later one on, with the same end. -/
theorem exists_readRecords_of_passes {r t w r' : Reader} {fuel : Nat} {tag : UInt32}
    {us : List Update} (hpasses : r.Passes w) (htag : readTag r = .ok tag t)
    (h : readRecords read L fuel tag t = .ok us r') :
    ∃ fuel tag t us, readTag w = .ok tag t ∧ readRecords read L fuel tag t = .ok us r' := by
  induction hpasses generalizing fuel tag t us with
  | here r => exact ⟨fuel, tag, t, us, htag, h⟩
  | record htag' hne hskip hrest ih =>
    cases htag.symm.trans htag'
    cases fuel with
    | zero => cases h
    | succ fuel =>
      obtain ⟨⟨us₁, more⟩, r₁, hpayload, h⟩ := bind_eq_ok.1 h
      -- Skipping the record ends where reading it does, but for the latest tag.
      obtain ⟨u, hskip', halike, -⟩ := skipField_readPayload hread hL hne hpayload
      cases hskip.symm.trans hskip'
      obtain ⟨next, r₂, hnext, h⟩ := bind_eq_ok.1 h
      obtain ⟨us₂, r₃, hrecords, h⟩ := bind_eq_ok.1 h
      cases h
      exact ih (halike.readTag hnext) hrecords

end Records

section Conformance

open Conformance (schema)

/-- What can be merged, over whatever is stored, can be skipped, and the reader is the same
afterwards. Looking ahead from a record of a repeated field on the way succeeds as well, and so fails
only where merging does, with and without room for more values. -/
theorem mergeMessage_as_strict_as_skipping (V : Conformance.Variant) (type : TypeId)
    {m m' : Message} (hm : m.Fits schema type) {r r' : Reader}
    (h : mergeMessage schema V.order type ⟨m, r⟩ = .ok () ⟨m', r'⟩) :
    skipMessage r = .ok () r' ∧
      ∀ w, r.Passes w → ∀ tag t, readTag w = .ok tag t →
        ∀ p, (schema.layout type).route tag = some (p, .element) →
          ∃ n, repeatedLength tag t = .ok n t := by
  have hS := Conformance.valid
  have hread := skippable_readContents hS
  obtain ⟨us, hus, -⟩ := (follows_mergeMessage hS V.order type hm r r' _).1 ⟨m', h, rfl⟩
  refine ⟨hread type hus, fun w hpasses tag t htag p hroute => ?_⟩
  rw [readContents_apply hS] at hus
  obtain ⟨first, u, hfirst, hrecords⟩ := bind_eq_ok.1 hus
  obtain ⟨fuel, tag', t', us', htag', hrecords'⟩ :=
    exists_readRecords_of_passes hread (hS type) hpasses hfirst hrecords
  cases htag.symm.trans htag'
  obtain ⟨n, hn, -⟩ := exists_repeatedLength hread (hS type) hroute hrecords'
  exact ⟨n, hn⟩

/-- A tree with a value and two children, the first of which has a child. Looking ahead from the
first of the children on, behind the value. -/
theorem mergeMessage_as_strict_as_skipping_tree :
    ∃ m r', mergeMessage schema .declaration Conformance.Tree
          ⟨schema.blank Conformance.Tree, .ofBytes [16, 7, 26, 2, 10, 0, 26, 0]⟩ =
        .ok () ⟨m, r'⟩ ∧
      skipMessage (.ofBytes [16, 7, 26, 2, 10, 0, 26, 0]) = .ok () r' ∧
      ∃ n, repeatedLength 26
          { Reader.ofBytes [16, 7, 26, 2, 10, 0, 26, 0] with pos := 3, lastTag := 26 } =
        .ok n { Reader.ofBytes [16, 7, 26, 2, 10, 0, 26, 0] with pos := 3, lastTag := 26 } := by
  obtain ⟨⟨m, r'⟩, hrun⟩ : ∃ s, mergeMessage schema .declaration Conformance.Tree
      ⟨schema.blank Conformance.Tree, .ofBytes [16, 7, 26, 2, 10, 0, 26, 0]⟩ = .ok () s :=
    ⟨_, by cbv⟩
  obtain ⟨hskip, hahead⟩ := mergeMessage_as_strict_as_skipping .declaration Conformance.Tree
    (.blank (Conformance.valid Conformance.Tree)) hrun
  -- The value takes two bytes, and the tag behind it one.
  have hpasses : (Reader.ofBytes [16, 7, 26, 2, 10, 0, 26, 0]).Passes
      { Reader.ofBytes [16, 7, 26, 2, 10, 0, 26, 0] with pos := 2, lastTag := 16 } :=
    @Reader.Passes.record _ { Reader.ofBytes [16, 7, 26, 2, 10, 0, 26, 0] with
      pos := 1, lastTag := 16 } _ _ 16 (by cbv) (by decide) (by cbv) (.here _)
  obtain ⟨p, hroute⟩ : ∃ p, (schema.layout Conformance.Tree).route 26 = some (p, .element) :=
    ⟨_, by cbv⟩
  exact ⟨m, r', hrun, hskip, hahead _ hpasses 26 _ (by cbv) p hroute⟩

end Conformance

end ProtoWire
