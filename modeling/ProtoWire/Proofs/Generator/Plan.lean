import Mathlib.Data.List.Forall2
import ProtoWire.Generator.Message

/-!
# Plans that were made

What follows when classification and planning succeed: how each plan depends on the declaration it
was made of.
-/

namespace ProtoWire.Generator

variable {message : String}

section Except

variable {ε ε' α β : Type} {x : Except ε α} {a : α} {b : β}

theorem bind_eq_ok_iff {f : α → Except ε β} : x >>= f = .ok b ↔ ∃ a, x = .ok a ∧ f a = .ok b := by
  cases x with
  | error e | ok a => simp [bind, Except.bind]

theorem map_eq_ok_iff {f : α → β} : f <$> x = .ok b ↔ ∃ a, x = .ok a ∧ f a = b := by
  cases x with
  | error e | ok a => simp [Functor.map, Except.map]

theorem append_eq_ok {x y : Except ε (List α)} {as : List α}
    (h : (do let first ← x; let more ← y; return first ++ more) = .ok as) :
    ∃ first more, x = .ok first ∧ y = .ok more ∧ as = first ++ more := by
  obtain ⟨first, hfirst, h⟩ := bind_eq_ok_iff.1 h
  obtain ⟨more, hmore, h⟩ := bind_eq_ok_iff.1 h
  cases h
  exact ⟨first, more, hfirst, hmore, rfl⟩

theorem mapError_eq_ok_iff {f : ε → ε'} : x.mapError f = .ok a ↔ x = .ok a := by
  cases x <;> simp [Except.mapError]

theorem orFail_eq_ok_iff {error : GenerateError} {value : Option α} :
    orFail error value = .ok a ↔ value = some a := by
  cases value <;> simp [orFail, fail]

theorem identifier_eq_ok_iff {name ident : String} :
    identifier name = .ok ident ↔ Source.isLegal name = true ∧ ident = name := by
  unfold identifier
  split
  · next h => simp [h, eq_comm]
  · next h => simp [h]

/-- Mapping over a list succeeds if it does so for each element. -/
theorem forall₂_of_mapM_eq_ok {f : α → Except ε β} {xs : List α} {ys : List β}
    (h : xs.mapM f = .ok ys) : List.Forall₂ (fun x y => f x = .ok y) xs ys := by
  induction xs generalizing ys with
  | nil =>
    rw [List.mapM_nil] at h
    cases h
    exact .nil
  | cons x xs ih =>
    rw [List.mapM_cons] at h
    obtain ⟨y, hy, h⟩ := bind_eq_ok_iff.1 h
    obtain ⟨rest, hrest, h⟩ := bind_eq_ok_iff.1 h
    cases h
    exact .cons hy (ih hrest)

end Except

/-- What is related to a list element by element has something for each element. -/
theorem exists_of_forall₂ {α β : Type} {r : α → β → Prop} {xs : List α} {ys : List β}
    (h : List.Forall₂ r xs ys) {x : α} (hx : x ∈ xs) : ∃ y ∈ ys, r x y := by
  induction h with
  | nil => cases hx
  | @cons first y xs ys hfirst _ ih =>
    rcases List.mem_cons.1 hx with rfl | hx
    · exact ⟨y, List.mem_cons_self, hfirst⟩
    · obtain ⟨other, hother, hrel⟩ := ih hx
      exact ⟨other, List.mem_cons_of_mem _ hother, hrel⟩

/-! ### Fields -/

/-- The strategy of a field is of its declared type, and repeated if the field is. -/
theorem classify_eq_ok {f : FieldDecl} {isProto3 : Bool} {s : Strategy}
    (h : classify message f isProto3 = .ok s) :
    f.type? = some s.category ∧ (s.cardinality.isRepeated = true ↔ f.labelKind = .repeated) := by
  unfold classify at h
  cases htype : f.type? with
  | none => cases hraw : f.type <;> simp [htype, hraw, bind, Except.bind] at h
  | some category =>
    simp only [htype, bind, Except.bind] at h
    split at h
    · cases h
    · split at h
      · cases h
      · split at h
        · cases h
        · next hlabel _ =>
          cases h
          simp [hlabel, Cardinality.isRepeated]
        · next hlabel =>
          cases h
          simpa [Cardinality.isRepeated] using hlabel
        · next hlabel =>
          cases h
          simpa [Cardinality.isRepeated] using hlabel

section Plans

variable {setting : Setting} {scope : Scope} {isProto3 : Bool}

namespace FieldPlan

variable {f : FieldDecl} {strategy : Strategy} {bit : Option PresenceBit}
  {oneof : Option OneofNames} {plan : FieldPlan}

/-- The parts of the plan of a field that come from its name and strategy. -/
theorem ofDecl_eq_ok (h : ofDecl setting scope message f strategy bit oneof = .ok plan) :
    f.name = some plan.protoName ∧ plan.strategy = strategy ∧
      plan.boxed = (strategy.category.isMessageLike && !strategy.cardinality.isRepeated &&
        setting.graph.isRecursive message plan.protoName) := by
  unfold ofDecl at h
  obtain ⟨name, hname, h⟩ := bind_eq_ok_iff.1 h
  obtain ⟨number, -, h⟩ := bind_eq_ok_iff.1 h
  obtain ⟨ident, -, h⟩ := bind_eq_ok_iff.1 h
  obtain ⟨element, -, h⟩ := bind_eq_ok_iff.1 h
  obtain ⟨default, -, h⟩ := bind_eq_ok_iff.1 h
  cases h
  exact ⟨orFail_eq_ok_iff.1 hname, rfl, rfl⟩

end FieldPlan

/-! ### Messages -/

namespace MessagePlan

variable {m : MessageDecl} {plan : MessagePlan}

/-- The parts of the plan of a message. -/
theorem ofDecl_eq_ok (h : ofDecl setting scope isProto3 m = .ok plan) :
    ∃ name strategies, m.name = some name ∧ identifier (typeName name) = .ok plan.ident ∧
      m.fields.mapM (classify name · isProto3) = .ok strategies ∧
      OneofPlan.collect m (allocate (strategies.map (·.cardinality)) m.oneofs.length) =
        .ok plan.oneofs ∧
      planFields setting scope (scope.qualify name) plan.oneofs (m.fields.zip (strategies.zip
        (allocate (strategies.map (·.cardinality)) m.oneofs.length).fields)) = .ok plan.fields ∧
      memberClash? plan.fields plan.oneofs = none := by
  unfold ofDecl at h
  obtain ⟨name, hname, h⟩ := bind_eq_ok_iff.1 h
  obtain ⟨ident, hident, h⟩ := bind_eq_ok_iff.1 h
  obtain ⟨strategies, hstrategies, h⟩ := bind_eq_ok_iff.1 h
  obtain ⟨oneofs, honeofs, h⟩ := bind_eq_ok_iff.1 h
  obtain ⟨fields, hfields, h⟩ := bind_eq_ok_iff.1 h
  split at h
  · cases h
  · next hclash =>
    cases h
    exact ⟨name, strategies, orFail_eq_ok_iff.1 hname, hident,
      mapError_eq_ok_iff.1 hstrategies, honeofs, hfields, hclash⟩

theorem forall₂_planFields {oneofs : List OneofPlan} {R : FieldDecl → Strategy → Prop}
    {fields : List FieldDecl} {strategies : List Strategy}
    (hstrategies : List.Forall₂ R fields strategies) {bits : List (Option PresenceBit)}
    (hbits : bits.length = strategies.length) {plans : List FieldPlan}
    (h : planFields setting scope message oneofs (fields.zip (strategies.zip bits)) = .ok plans) :
    List.Forall₂ (fun f p => ∃ strategy bit, R f strategy ∧
      FieldPlan.ofDecl setting scope message f strategy bit (oneofNames? oneofs strategy) = .ok p)
      fields plans := by
  induction hstrategies generalizing bits plans with
  | nil =>
    cases h
    exact .nil
  | @cons f strategy fields strategies hf _ ih =>
    cases bits with
    | nil => cases hbits
    | cons bit bits =>
      rw [List.zip_cons_cons, List.zip_cons_cons, planFields] at h
      obtain ⟨p, hp, h⟩ := bind_eq_ok_iff.1 h
      obtain ⟨rest, hrest, h⟩ := bind_eq_ok_iff.1 h
      cases h
      exact .cons ⟨strategy, bit, hf, hp⟩ (ih (Nat.succ.inj hbits) hrest)

/-- A message has one plan for each declared field, in order. -/
theorem forall₂_fields {name : String} (hname : m.name = some name)
    (h : ofDecl setting scope isProto3 m = .ok plan) :
    List.Forall₂ (fun f p => ∃ strategy bit, classify name f isProto3 = .ok strategy ∧
      FieldPlan.ofDecl setting scope (scope.qualify name) f strategy bit
        (oneofNames? plan.oneofs strategy) = .ok p) m.fields plan.fields := by
  obtain ⟨_, strategies, hname', -, hstrategies, -, hfields, -⟩ := ofDecl_eq_ok h
  obtain rfl := Option.some.inj (hname'.symm.trans hname)
  exact forall₂_planFields (forall₂_of_mapM_eq_ok hstrategies)
    (by rw [length_allocate, List.length_map]) hfields

end MessagePlan

end Plans

end ProtoWire.Generator
