import ProtoWire.Proofs.Generator.Enum
import ProtoWire.Proofs.Generator.Name

/-!
# The names of variants

A variant has the name of its value with the words run together. This drops underscores and letter
case, so that different names may become the same, and such an enum is not refused.
-/

namespace ProtoWire.Generator

open Code Text

variable {a b : String} {values : List EnumValueDecl}

/-! ### Names that become the same -/

/-- Names with the same characters, but for underscores and letter case, in which words start with
the same letters. -/
def Collide (a b : String) : Prop :=
  List.Forall₂ (fun p q => p.1.toLower = q.1.toLower ∧ (p.1.isAlpha = true → p.2 = q.2))
    (wordChars true a.toList) (wordChars true b.toList)

instance (a b : String) : Decidable (Collide a b) :=
  inferInstanceAs (Decidable (List.Forall₂ _ _ _))

/-- Beyond the basic alphabet there is no case. -/
theorem toLower_cases (c : Char) :
    c.toUpper.toLower = c.toLower ∧ c.toLower.toUpper = c.toUpper ∧ c.toLower.toLower = c.toLower ∧
      (c.toUpper = c.toLower ↔ c.isAlpha = false) := by
  by_cases hbasic : c.toNat < 128
  · exact forall_basic (p := fun c => c.toUpper.toLower = c.toLower ∧
      c.toLower.toUpper = c.toUpper ∧ c.toLower.toLower = c.toLower ∧
      (c.toUpper = c.toLower ↔ c.isAlpha = false)) (by decide +kernel) hbasic
  · have hlarge : ∀ d : Char, d.toNat < 128 → ¬c.val ≤ d.val := fun d hd hle =>
      hbasic (Nat.lt_of_le_of_lt hle hd)
    have hlower : c.toLower = c := dif_neg fun h => hlarge 'Z' (by decide) h.2
    have hupper : c.toUpper = c := dif_neg fun h => hlarge 'z' (by decide) h.2
    have halpha : c.isAlpha = false := Bool.or_eq_false_iff.2
      ⟨decide_eq_false fun h => hlarge 'Z' (by decide) h.2,
        Bool.and_eq_false_iff.2 (.inr (decide_eq_false (hlarge 'z' (by decide))))⟩
    simp only [hlower, hupper, halpha, and_self]

theorem recased_eq_iff (p q : Char × Bool) : recased p = recased q ↔
    p.1.toLower = q.1.toLower ∧ (p.1.isAlpha = true → p.2 = q.2) := by
  obtain ⟨c, s⟩ := p
  obtain ⟨d, t⟩ := q
  obtain ⟨hc, hc', hc'', hcase⟩ := toLower_cases c
  obtain ⟨hd, hd', hd'', -⟩ := toLower_cases d
  have hupper : c.toUpper = d.toUpper ↔ c.toLower = d.toLower :=
    ⟨fun h => by rw [← hc, h, hd], fun h => by rw [← hc', h, hd']⟩
  cases s <;> cases t <;> simp only [recased, if_true, Bool.false_eq_true, if_false]
  case false.false => simp
  case true.true => simpa using hupper
  -- a character that starts a word in one of the names alone has no case
  all_goals grind

theorem pascalCase_eq_iff (ha : IsPlain a) (hb : IsPlain b) :
    pascalCase a = pascalCase b ↔ Collide a b := by
  rw [← String.toList_inj, toList_pascalCase ha, toList_pascalCase hb, ← List.forall₂_eq_eq_eq,
    List.forall₂_map_left_iff, List.forall₂_map_right_iff]
  simp only [recased_eq_iff, Collide]

/-! ### Variants -/

theorem mem_of_mem_valuesBy {later : Bool} {v : EnumValueDecl} (h : v ∈ valuesBy later values) :
    v ∈ values := by
  obtain ⟨p, hp, rfl⟩ := List.mem_map.1 h
  exact List.fst_mem_of_mem_zipIdx (List.mem_filter.1 hp).1

/-- The variants of an accepted enum have different names exactly if no two of the names that they
are made of become the same. -/
theorem variants_apart_iff {e : EnumDecl} {items : List Item} (h : enumItems e = .ok items)
    (hplain : ∀ v ∈ e.values, ∀ name ∈ v.name, IsPlain name) :
    ((variantsOf items).map Prod.fst).Nodup ↔
      (variantSources e.values).Pairwise fun a b => ¬Collide a b := by
  obtain ⟨plan, hplan, rfl⟩ := map_eq_ok_iff.1 h
  obtain ⟨_, -, hfiles, -⟩ := EnumPlan.ofDecl_eq_ok hplan
  have hsources : ∀ name ∈ variantSources e.values, IsPlain name := fun name hname => by
    obtain ⟨v, hv, hname⟩ := List.mem_filterMap.1 hname
    exact hplain v (mem_of_mem_valuesBy hv) name hname
  rw [plan.variantsOf_items, List.map_map]
  change (plan.variants.map Prod.fst).Nodup ↔ _
  rw [hfiles.names_eq, List.Nodup, List.pairwise_map]
  exact List.Pairwise.iff_of_mem fun ha hb =>
    not_congr (pascalCase_eq_iff (hsources _ ha) (hsources _ hb))

/-- Two names with the same letters, and a third that is the first again as a constant. -/
def letterEnum : EnumDecl :=
  { name := some "Letters"
    values := [⟨some "FOO_BAR", some 0⟩, ⟨some "FOOBAR", some 1⟩, ⟨some "foo_bar", some 0⟩] }

theorem variants_apart_letters : ∃ items, enumItems letterEnum = .ok items ∧
    ((variantsOf items).map Prod.fst).Nodup :=
  ⟨_, rfl, (@variants_apart_iff letterEnum _ rfl (by decide +kernel)).2 (by decide +kernel)⟩

/-- Values with different names and numbers. -/
def clashingEnum : EnumDecl :=
  { name := some "Kind"
    values := [⟨some "FOO_BAR", some 0⟩, ⟨some "foo_bar", some 1⟩] }

/-- Values with different plain names become variants of one name, and the enum is accepted. -/
theorem variants_share_a_name :
    (clashingEnum.values.filterMap (·.name)).Nodup ∧
    (∀ v ∈ clashingEnum.values, ∀ name ∈ v.name, IsPlain name) ∧
    ∃ items, enumItems clashingEnum = .ok items ∧ ¬((variantsOf items).map Prod.fst).Nodup :=
  ⟨by decide, by decide +kernel, _, rfl, by decide +kernel⟩

end ProtoWire.Generator
