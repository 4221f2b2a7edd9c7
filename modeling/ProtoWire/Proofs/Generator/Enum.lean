import ProtoWire.Proofs.Field.Allocation
import ProtoWire.Proofs.Generator.Plan

/-!
# The numbers of generated enums

What the code of an enum says of numbers, read from the code: the numbers of its variants, the
variant that a number is converted to, the constants, and the default. A variant is told by its
name, so that the code means one number only where no two variants have the same name.
-/

namespace ProtoWire

open Code

/-! ### What code says -/

namespace Code

/-- The variants that items declare, with their numbers. -/
def variantsOf (items : List Item) : List (String × Int) :=
  items.flatMap fun
    | .enum _ _ variants => variants
    | _ => []

def membersOf (items : List Item) : List Member :=
  items.flatMap fun
    | .implementation _ _ _ members => members
    | _ => []

def constantsOf (items : List Item) : List (String × Expr) :=
  (membersOf items).filterMap fun
    | .constant name _ value => some (name, value)
    | .function _ => none

def functionsOf (items : List Item) : List Function :=
  (membersOf items).filterMap fun
    | .function f => some f
    | .constant _ _ _ => none

/-- The body of the first function of a name. -/
def bodyOf? (name : String) (items : List Item) : Option (List Stmt) :=
  ((functionsOf items).find? (·.name = name)).map (·.body)

/-- Whether a pattern accepts a number. -/
def Pat.accepts (n : Int) : Pat → Bool
  | .wild => true
  | .literal negative text => text.toNat?.any fun k : Nat => n = if negative then -(k : Int) else k
  | _ => false

/-- The body of the first arm that accepts a number. -/
def selected? (n : Int) : List Arm → Option Expr
  | [] => none
  | .mk pattern body :: rest => if pattern.accepts n then some body else selected? n rest

/-- The variant that an expression names, which is a path of two parts. -/
def Expr.variant? : Expr → Option String
  | .path ⟨false, [.name "Self", .name variant]⟩ => some variant
  | _ => none

end Code

namespace Generator

variable {ident : String} {values : List EnumValueDecl} {v : EnumValueDecl}
  {plan next : EnumPlan} {n : Int32}

/-- An expression names a variant, and one of the variants of that name has a number. -/
def Names (variants : List (String × Int)) (expr : Expr) (n : Int) : Prop :=
  ∃ variant, expr.variant? = some variant ∧ (variant, n) ∈ variants

/-- An expression names a variant, and that variant has a number and no other. -/
def Denotes (variants : List (String × Int)) (expr : Expr) (n : Int) : Prop :=
  ∃ variant, expr.variant? = some variant ∧ ∀ m, (variant, m) ∈ variants ↔ m = n

theorem Denotes.unique {variants : List (String × Int)} {expr : Expr} {m n : Int}
    (hm : Denotes variants expr m) (hn : Denotes variants expr n) : m = n := by
  obtain ⟨variant, hvariant, hm⟩ := hm
  obtain ⟨other, hother, hn⟩ := hn
  obtain rfl := Option.some.inj (hvariant.symm.trans hother)
  exact (hn m).1 ((hm m).2 rfl)

def declaredNumbers (values : List EnumValueDecl) : List Int32 :=
  values.filterMap (·.number)

/-- The values whose number an earlier one has, or those whose number none has. -/
def valuesBy (later : Bool) (values : List EnumValueDecl) : List EnumValueDecl :=
  (values.zipIdx.filter fun p => (values.take p.2).any (·.number == p.1.number) == later).map (·.1)

/-- The names that variants are made of. -/
def variantSources (values : List EnumValueDecl) : List String :=
  (valuesBy false values).filterMap (·.name)

/-- The code of an enum keeps to the numbers of its values, with a reading of expressions as
numbers. -/
structure KeepsNumbers (means : List (String × Int) → Expr → Int → Prop)
    (values : List EnumValueDecl) (items : List Item) : Prop where
  /-- The variants have the declared numbers, each once and in the order of declaration. -/
  numbers : (variantsOf items).map Prod.snd = (declaredNumbers values).eraseDups.map Int32.toInt
  /-- There is a constant for each value whose number was used before, and it is the variant of that
  number. -/
  constants : List.Forall₂ (fun v constant => v.name = some constant.1 ∧
    ∃ n, v.number = some n ∧ means (variantsOf items) constant.2 n.toInt)
    (valuesBy true values) (constantsOf items)
  /-- A declared number is converted to its variant, and any other one to none. -/
  conversion : ∃ arms, bodyOf? "from_i32" items = some [(Expr.select (var "value") arms).value] ∧
    ∀ n : Int32, if n ∈ declaredNumbers values then
        ∃ expr, selected? n.toInt arms = some ((Expr.path somePath).applied [expr]) ∧
          means (variantsOf items) expr n.toInt
      else selected? n.toInt arms = some noneExpr
  /-- A variant is converted to its number. -/
  value : bodyOf? "value" items = some [(Expr.cast (var "self") (.ofName "i32")).value]
  default : ∃ expr number, bodyOf? "default" items = some [expr.value] ∧
    means (variantsOf items) expr number.toInt ∧
    if 0 ∈ declaredNumbers values then number = 0
    else (declaredNumbers values).head? = some number

theorem KeepsNumbers.imp {means means' : List (String × Int) → Expr → Int → Prop}
    {items : List Item} (h : KeepsNumbers means values items)
    (himp : ∀ expr n, means (variantsOf items) expr n → means' (variantsOf items) expr n) :
    KeepsNumbers means' values items := by
  obtain ⟨arms, harms, hconversion⟩ := h.conversion
  obtain ⟨expr, number, hbody, hexpr, hnumber⟩ := h.default
  refine ⟨h.numbers, h.constants.imp ?_, ⟨arms, harms, fun n => ?_⟩, h.value,
    ⟨expr, number, hbody, himp expr _ hexpr, hnumber⟩⟩
  · rintro v constant ⟨hname, n, hn, hconstant⟩
    exact ⟨hname, n, hn, himp _ _ hconstant⟩
  · have hn := hconversion n
    split at hn
    · next hmem =>
      obtain ⟨expr, hselected, hexpr⟩ := hn
      rw [if_pos hmem]
      exact ⟨expr, hselected, himp expr _ hexpr⟩
    · next hmem => rwa [if_neg hmem]

/-! ### Filing values -/

theorem valuesBy_concat (later : Bool) (values : List EnumValueDecl) (v : EnumValueDecl) :
    valuesBy later (values ++ [v]) =
      valuesBy later values ++ if values.any (·.number == v.number) == later then [v] else [] := by
  have hfront : ∀ p ∈ values.zipIdx, (values ++ [v]).take p.2 = values.take p.2 := fun p hp =>
    List.take_append_of_le_length (Nat.le_of_lt (List.snd_lt_of_mem_zipIdx hp))
  rw [valuesBy, List.zipIdx_append, List.filter_append, List.map_append,
    List.filter_congr fun p hp => by rw [hfront p hp]]
  congr 1
  simp only [List.zipIdx_singleton, List.filter_cons, List.filter_nil, Nat.zero_add,
    List.take_left]
  split <;> rfl

theorem any_number_iff (hn : v.number = some n) :
    values.any (·.number == v.number) = true ↔ n ∈ declaredNumbers values := by
  simp only [List.any_eq_true, beq_iff_eq, hn, declaredNumbers, List.mem_filterMap]

theorem nodup_eraseDups (numbers : List Int32) : numbers.eraseDups.Nodup := by
  induction numbers using List.reverseRecOn with
  | nil => exact .nil
  | append_singleton numbers n ih =>
    rw [eraseDups_append_singleton]
    split
    · exact ih
    · next hnew => exact ih.append (List.nodup_singleton n) (by simpa using hnew)

/-- A number is that of a variant that is found by it, or of none. -/
theorem find?_number (variants : List (String × Int32)) (n : Int32) :
    (∃ variant, variants.find? (·.2 == n) = some (variant, n) ∧ (variant, n) ∈ variants) ∨
      variants.find? (·.2 == n) = none ∧ n ∉ variants.map Prod.snd := by
  cases hfind : variants.find? (·.2 == n) with
  | some p =>
    obtain ⟨variant, m⟩ := p
    have hm := List.find?_some hfind
    obtain rfl : m = n := eq_of_beq hm
    exact .inl ⟨variant, rfl, List.mem_of_find?_eq_some hfind⟩
  | none =>
    refine .inr ⟨rfl, fun hmem => ?_⟩
    obtain ⟨p, hp, rfl⟩ := List.mem_map.1 hmem
    exact List.find?_eq_none.1 hfind p hp (beq_self_eq_true p.2)

namespace EnumPlan

/-- Values are filed in a plan: the first of each number as a variant, the others as further names
of one. -/
structure Files (ident : String) (values : List EnumValueDecl) (plan : EnumPlan) : Prop where
  ident_eq : plan.ident = ident
  numbers : plan.variants.map Prod.snd = (declaredNumbers values).eraseDups
  variants : List.Forall₂ (fun v variant => ∃ name, v.name = some name ∧
    variant.1 = pascalCase name ∧ v.number = some variant.2) (valuesBy false values) plan.variants
  aliases : List.Forall₂ (fun v other => v.name = some other.1 ∧
    ∃ n, v.number = some n ∧ (other.2, n) ∈ plan.variants) (valuesBy true values) plan.aliases

theorem Files.mem_iff (h : plan.Files ident values) :
    n ∈ plan.variants.map Prod.snd ↔ n ∈ declaredNumbers values := by
  rw [h.numbers, List.mem_eraseDups]

theorem Files.names_eq (h : plan.Files ident values) :
    plan.variants.map Prod.fst = (variantSources values).map pascalCase := by
  have hnames := h.variants
  unfold variantSources
  generalize valuesBy false values = firsts, plan.variants = variants at hnames ⊢
  induction hnames with
  | nil => rfl
  | cons hv _ ih =>
    obtain ⟨name, hname, hvariant, -⟩ := hv
    rw [List.map_cons, ih, hvariant, List.filterMap_cons_some hname, List.map_cons]

/-- No two variants have the same number. -/
theorem Files.nodup_numbers (h : plan.Files ident values) : (plan.variants.map Prod.snd).Nodup := by
  rw [h.numbers]
  exact nodup_eraseDups _

theorem addValue_eq_ok (h : plan.addValue v = .ok next) :
    ∃ name number, v.name = some name ∧ v.number = some number ∧
      ((∃ primary, (primary, number) ∈ plan.variants ∧
          next = { plan with aliases := plan.aliases ++ [(name, primary)] }) ∨
        number ∉ plan.variants.map Prod.snd ∧
          next = { plan with variants := plan.variants ++ [(pascalCase name, number)] }) := by
  unfold addValue at h
  obtain ⟨name, hname, h⟩ := bind_eq_ok_iff.1 h
  obtain ⟨number, hnumber, h⟩ := bind_eq_ok_iff.1 h
  obtain ⟨variant, hvariant, h⟩ := bind_eq_ok_iff.1 h
  refine ⟨name, number, orFail_eq_ok_iff.1 hname, orFail_eq_ok_iff.1 hnumber, ?_⟩
  obtain ⟨primary, hfind, hmem⟩ | ⟨hfind, hnew⟩ := find?_number plan.variants number <;>
    rw [hfind] at h
  · obtain ⟨alternative, halternative, ⟨⟩⟩ := bind_eq_ok_iff.1 h
    obtain rfl := (identifier_eq_ok_iff.1 halternative).2
    exact .inl ⟨primary, hmem, rfl⟩
  · cases h
    obtain rfl := (identifier_eq_ok_iff.1 hvariant).2
    exact .inr ⟨hnew, rfl⟩

theorem Files.addValue (h : plan.Files ident values) (hnext : plan.addValue v = .ok next) :
    next.Files ident (values ++ [v]) := by
  obtain ⟨name, n, hname, hn, hcases⟩ := addValue_eq_ok hnext
  have hdeclared : declaredNumbers (values ++ [v]) = declaredNumbers values ++ [n] := by
    rw [declaredNumbers, List.filterMap_append]
    simp only [List.filterMap_cons, hn, List.filterMap_nil, declaredNumbers]
  obtain ⟨primary, hprimary, rfl⟩ | ⟨hnew, rfl⟩ := hcases
  · -- the number was used before, so the value is a further name
    have hmem := h.mem_iff.1 (List.mem_map_of_mem hprimary)
    have hany := (any_number_iff hn).2 hmem
    refine ⟨h.ident_eq, ?_, ?_, ?_⟩
    · rw [h.numbers, hdeclared, eraseDups_append_singleton, if_pos hmem]
    · rw [valuesBy_concat, hany]
      exact (List.append_nil (valuesBy false values)).symm ▸ h.variants
    · rw [valuesBy_concat, hany]
      exact List.rel_append h.aliases (.cons ⟨hname, n, hn, hprimary⟩ .nil)
  · -- the number is new, and stays apart from those before
    have hmem := mt h.mem_iff.2 hnew
    have hany := Bool.eq_false_iff.2 (mt (any_number_iff hn).1 hmem)
    refine ⟨h.ident_eq, ?_, ?_, ?_⟩
    · rw [List.map_append, h.numbers, hdeclared, eraseDups_append_singleton, if_neg hmem]
      rfl
    · rw [valuesBy_concat, hany]
      exact List.rel_append h.variants (.cons ⟨name, hname, rfl, hn⟩ .nil)
    · rw [valuesBy_concat, hany]
      refine (List.append_nil (valuesBy true values)).symm ▸ h.aliases.imp ?_
      rintro w other ⟨hw, k, hk, hmem⟩
      exact ⟨hw, k, hk, List.mem_append_left _ hmem⟩

theorem Files.foldlM {more : List EnumValueDecl} (h : plan.Files ident values)
    (hnext : more.foldlM EnumPlan.addValue plan = .ok next) : next.Files ident (values ++ more) := by
  induction more generalizing values plan with
  | nil =>
    cases hnext
    rwa [List.append_nil]
  | cons v more ih =>
    rw [List.foldlM_cons] at hnext
    obtain ⟨between, hbetween, hnext⟩ := bind_eq_ok_iff.1 hnext
    rw [List.append_cons]
    exact ih (h.addValue hbetween) hnext

theorem ofDecl_eq_ok {e : EnumDecl} (h : ofDecl e = .ok plan) :
    ∃ name, e.name = some name ∧ plan.Files (typeName name) e.values ∧ plan.variants ≠ [] := by
  unfold ofDecl at h
  obtain ⟨name, hname, h⟩ := bind_eq_ok_iff.1 h
  obtain ⟨ident, hident, h⟩ := bind_eq_ok_iff.1 h
  obtain ⟨filled, hfilled, h⟩ := bind_eq_ok_iff.1 h
  split at h
  · cases h
  · next hvariants =>
    cases h
    have hempty : Files (typeName name) [] ⟨ident, [], []⟩ :=
      ⟨(identifier_eq_ok_iff.1 hident).2, rfl, .nil, .nil⟩
    exact ⟨name, orFail_eq_ok_iff.1 hname, hempty.foldlM hfilled,
      fun hnil => hvariants (List.isEmpty_iff.2 hnil)⟩

/-! ### The code -/

theorem variantsOf_items (plan : EnumPlan) :
    variantsOf plan.items = plan.variants.map fun p => (p.1, p.2.toInt) := by
  unfold items
  split <;> simp [variantsOf]

theorem constantsOf_items (plan : EnumPlan) :
    constantsOf plan.items = plan.aliases.map fun p => (p.1, variantExpr p.2) := by
  unfold items
  split
  · next h => simp [constantsOf, membersOf, List.isEmpty_iff.1 h]
  · simp [constantsOf, membersOf]

theorem mem_variantsOf_items {variant : String} :
    (variant, n.toInt) ∈ variantsOf plan.items ↔ (variant, n) ∈ plan.variants := by
  simp [variantsOf_items, Int32.toInt_inj]

theorem names_variantExpr {variant : String} (h : (variant, n) ∈ plan.variants) :
    Names (variantsOf plan.items) (variantExpr variant) n.toInt :=
  ⟨variant, rfl, mem_variantsOf_items.2 h⟩

theorem accepts_numberPat (m n : Int32) : (numberPat m).accepts n.toInt = decide (m = n) := by
  have hspelled : (if m.toInt < 0 then -(m.toInt.natAbs : Int) else m.toInt.natAbs) = m.toInt := by
    split <;> omega
  rw [numberPat, Pat.accepts, show toString m.toInt.natAbs = m.toInt.natAbs.repr from rfl,
    Nat.toNat?_repr, Option.any_some]
  simp only [decide_eq_true_eq, hspelled, Int32.toInt_inj, @eq_comm _ n]

/-- The arms of the conversion from numbers. -/
def arms (variants : List (String × Int32)) : List Arm :=
  variants.map (fun p => .mk (numberPat p.2) ((Expr.path somePath).applied [variantExpr p.1])) ++
    [.mk .wild noneExpr]

theorem selected?_arms (variants : List (String × Int32)) (n : Int32) :
    selected? n.toInt (arms variants) =
      match variants.find? (·.2 == n) with
      | some p => some ((Expr.path somePath).applied [variantExpr p.1])
      | none => some noneExpr := by
  induction variants with
  | nil => rfl
  | cons p rest ih =>
    rw [arms, List.map_cons, List.cons_append, selected?, accepts_numberPat, List.find?_cons]
    by_cases hp : p.2 = n
    · simp only [hp, decide_true, if_true, beq_self_eq_true]
    · simp only [hp, decide_false, Bool.false_eq_true, if_false, beq_eq_false_iff_ne.2 hp]
      exact ih

theorem bodyOf?_from_items (plan : EnumPlan) :
    bodyOf? "from_i32" plan.items =
      some [(Expr.select (var "value") (arms plan.variants)).value] := by
  unfold items
  split <;> simp [bodyOf?, functionsOf, membersOf, arms]

theorem bodyOf?_value_items (plan : EnumPlan) :
    bodyOf? "value" plan.items = some [(Expr.cast (var "self") (.ofName "i32")).value] := by
  unfold items
  split <;> simp [bodyOf?, functionsOf, membersOf]

theorem bodyOf?_default_items (plan : EnumPlan) :
    bodyOf? "default" plan.items =
      some (plan.default?.toList.map fun variant => (variantExpr variant).value) := by
  unfold items
  split <;> simp [bodyOf?, functionsOf, membersOf]

theorem Files.conversion (h : plan.Files ident values) (n : Int32) :
    if n ∈ declaredNumbers values then
      ∃ expr, selected? n.toInt (arms plan.variants) = some ((Expr.path somePath).applied [expr]) ∧
        Names (variantsOf plan.items) expr n.toInt
    else selected? n.toInt (arms plan.variants) = some noneExpr := by
  obtain ⟨variant, hfind, hmem⟩ | ⟨hfind, hnew⟩ := find?_number plan.variants n
  · rw [selected?_arms, hfind, if_pos (h.mem_iff.1 (List.mem_map_of_mem hmem))]
    exact ⟨_, rfl, names_variantExpr hmem⟩
  · rw [selected?_arms, hfind, if_neg (mt h.mem_iff.2 hnew)]

theorem Files.default (h : plan.Files ident values) (hne : plan.variants ≠ []) :
    ∃ variant number, plan.default? = some variant ∧ (variant, number) ∈ plan.variants ∧
      if 0 ∈ declaredNumbers values then number = 0
      else (declaredNumbers values).head? = some number := by
  obtain ⟨variant, hfind, hmem⟩ | ⟨hfind, hnew⟩ := find?_number plan.variants 0
  · refine ⟨variant, 0, by rw [default?, hfind], hmem, ?_⟩
    rw [if_pos (h.mem_iff.1 (List.mem_map_of_mem hmem))]
  · -- the first variant has the first number, since no number is moved to the front
    have hnumbers := h.numbers
    obtain ⟨⟨variant, number⟩, rest, hvariants⟩ := List.exists_cons_of_ne_nil hne
    refine ⟨variant, number, by rw [default?, hfind, hvariants]; rfl,
      hvariants ▸ List.mem_cons_self, ?_⟩
    rw [if_neg (mt h.mem_iff.2 hnew)]
    rw [hvariants] at hnumbers
    cases hdeclared : declaredNumbers values with
    | nil => simp [hdeclared] at hnumbers
    | cons first _ =>
      rw [hdeclared, List.eraseDups_cons] at hnumbers
      exact congrArg some (List.cons.inj hnumbers).1.symm

theorem Files.keepsNumbers (h : plan.Files ident values) (hne : plan.variants ≠ []) :
    KeepsNumbers Names values plan.items := by
  refine ⟨?_, ?_, ⟨_, plan.bodyOf?_from_items, h.conversion⟩, plan.bodyOf?_value_items, ?_⟩
  · rw [plan.variantsOf_items, ← h.numbers, List.map_map, List.map_map]
    rfl
  · rw [plan.constantsOf_items, List.forall₂_map_right_iff]
    refine h.aliases.imp ?_
    rintro v other ⟨hname, n, hn, hmem⟩
    exact ⟨hname, n, hn, names_variantExpr hmem⟩
  · obtain ⟨variant, number, hdefault, hmem, hnumber⟩ := h.default hne
    refine ⟨variantExpr variant, number, ?_, names_variantExpr hmem, hnumber⟩
    rw [plan.bodyOf?_default_items, hdefault]
    rfl

/-- Where names are apart, a variant that is named has one number. -/
theorem denotes_of_names (hnames : (plan.variants.map Prod.fst).Nodup) {expr : Expr} {n : Int}
    (h : Names (variantsOf plan.items) expr n) : Denotes (variantsOf plan.items) expr n := by
  obtain ⟨variant, hvariant, hmem⟩ := h
  have hfst : ((variantsOf plan.items).map Prod.fst).Nodup := by
    rwa [variantsOf_items, List.map_map]
  refine ⟨variant, hvariant, fun m => ⟨fun hm => ?_, fun hm => hm ▸ hmem⟩⟩
  exact congrArg Prod.snd (List.inj_on_of_nodup_map hfst hm hmem rfl)

/-- A number that is converted to a variant with that number alone shows that no other variant has
the name. -/
theorem Files.nodup_names (h : plan.Files ident values)
    (hkeeps : KeepsNumbers Denotes values plan.items) : (plan.variants.map Prod.fst).Nodup := by
  obtain ⟨arms, harms, hconversion⟩ := hkeeps.conversion
  obtain rfl : EnumPlan.arms plan.variants = arms := by
    simpa [Expr.value] using plan.bodyOf?_from_items.symm.trans harms
  refine h.nodup_numbers.of_map.map_on ?_
  rintro ⟨variant, m⟩ hm ⟨other, n⟩ hn (rfl : variant = other)
  obtain ⟨found, hfind, hfound⟩ | ⟨-, hnew⟩ := find?_number plan.variants m
  · obtain rfl : variant = found :=
      congrArg Prod.fst (List.inj_on_of_nodup_map h.nodup_numbers hm hfound rfl)
    have hdenotes := hconversion m
    rw [selected?_arms, hfind, if_pos (h.mem_iff.1 (List.mem_map_of_mem hm))] at hdenotes
    obtain ⟨expr, hexpr, named, hnamed, hnumber⟩ := hdenotes
    obtain rfl : variantExpr variant = expr := by simpa [Expr.applied] using hexpr
    obtain rfl : variant = named := Option.some.inj hnamed
    rw [Int32.toInt_inj.1 ((hnumber _).1 (mem_variantsOf_items.2 hn))]
  · exact absurd (List.mem_map_of_mem hm) hnew

end EnumPlan

/-- The code of an accepted enum has the declared numbers, and each expression in it names a variant
of the right number. What it names is that variant alone exactly if no two variants have the same
name. -/
theorem enum_keeps_numbers {e : EnumDecl} {items : List Item} (h : enumItems e = .ok items) :
    KeepsNumbers Names e.values items ∧
    (KeepsNumbers Denotes e.values items ↔ ((variantSources e.values).map pascalCase).Nodup) := by
  obtain ⟨plan, hplan, rfl⟩ := map_eq_ok_iff.1 h
  obtain ⟨name, -, hfiles, hne⟩ := EnumPlan.ofDecl_eq_ok hplan
  have hkeeps := hfiles.keepsNumbers hne
  rw [← hfiles.names_eq]
  exact ⟨hkeeps, hfiles.nodup_names, fun hnames =>
    hkeeps.imp fun _ _ => EnumPlan.denotes_of_names hnames⟩

/-- An enum with a number that is used twice, one below zero, and zero neither first nor last. -/
def speedEnum : EnumDecl :=
  { name := some "Speed"
    values := [⟨some "FAST", some 1⟩, ⟨some "QUICK", some 1⟩, ⟨some "STILL", some 0⟩,
      ⟨some "BACK", some (-3)⟩] }

theorem enum_keeps_numbers_speed : ∃ items, enumItems speedEnum = .ok items ∧
    KeepsNumbers Denotes speedEnum.values items :=
  ⟨_, rfl, (@enum_keeps_numbers speedEnum _ rfl).2.2 (by decide +kernel)⟩

/-- Values with different names and numbers, of which two become variants of one name. -/
def gearEnum : EnumDecl :=
  { name := some "Gear"
    values := [⟨some "PARK", some 0⟩, ⟨some "GEAR_1", some 1⟩, ⟨some "GEAR1", some 2⟩] }

/-- The code converts two numbers to the same variant, and the enum is accepted. -/
theorem enum_confuses_numbers :
    (gearEnum.values.filterMap (·.name)).Nodup ∧ (gearEnum.values.filterMap (·.number)).Nodup ∧
    ∃ items, enumItems gearEnum = .ok items ∧ ¬KeepsNumbers Denotes gearEnum.values items := by
  refine ⟨by decide, by decide, _, rfl, fun hkeeps => ?_⟩
  obtain ⟨_, -, hfiles, -⟩ := @EnumPlan.ofDecl_eq_ok _ gearEnum rfl
  exact absurd (hfiles.nodup_names hkeeps) (by decide +kernel)

end Generator

end ProtoWire
