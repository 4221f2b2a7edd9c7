import ProtoWire.Generator.Library

/-!
# Generated enums

The first name of a number becomes a variant. A later one becomes a constant.
-/

namespace ProtoWire.Generator

open Code

/-- All that the code of an enum depends on. -/
structure EnumPlan where
  ident : String
  /-- The variants with their numbers, no number twice. -/
  variants : List (String × Int32)
  /-- Further names of variants. -/
  aliases : List (String × String)

namespace EnumPlan

/-- The plan with one more value: a variant, or another name of the variant with its number. -/
def addValue (plan : EnumPlan) (v : EnumValueDecl) : Generate EnumPlan := do
  let name ← orFail .missingName v.name
  let number ← orFail (.missingNumber name) v.number
  let variant ← identifier (pascalCase name)
  match plan.variants.find? (·.2 == number) with
  | some (primary, _) =>
    let alternative ← identifier name
    return { plan with aliases := plan.aliases ++ [(alternative, primary)] }
  | none => return { plan with variants := plan.variants ++ [(variant, number)] }

/-- The plan of a declared enum, which must have values. -/
def ofDecl (e : EnumDecl) : Generate EnumPlan := do
  let name ← orFail .missingName e.name
  let ident ← identifier (typeName name)
  let plan ← e.values.foldlM addValue { ident, variants := [], aliases := [] }
  if plan.variants.isEmpty then fail (.unhandled name "" "enum declares no values")
  return plan

/-- The default variant: the one numbered zero, or else the first. -/
def default? (plan : EnumPlan) : Option String :=
  match plan.variants.find? (·.2 == 0) with
  | some (variant, _) => some variant
  | none => plan.variants.head?.map Prod.fst

def variantExpr (variant : String) : Expr :=
  .path ((Path.ofName "Self").child variant)

def numberPat (number : Int32) : Pat :=
  .literal (number.toInt < 0) (toString number.toInt.natAbs)

/-- The code of an enum: the declaration, other names, and the conversions from and to numbers. -/
def items (plan : EnumPlan) : List Item :=
  let type := Ty.ofName plan.ident
  let arms := plan.variants.map fun (variant, number) =>
    Arm.mk (numberPat number) ((Expr.path somePath).applied [variantExpr variant])
  let toNumber (name : String) : Stmt := (Expr.cast (var name) (.ofName "i32")).value
  [.enum [.list "derive" ["Debug", "Clone", "Copy", "PartialEq", "Eq", "Hash"],
      .list "repr" ["i32"]] plan.ident (plan.variants.map fun (v, n) => (v, n.toInt))] ++
    (if plan.aliases.isEmpty then []
      else
        [.implementation [.list "allow" ["non_upper_case_globals"]] none type
          (plan.aliases.map fun (alternative, variant) =>
            .constant alternative .self (variantExpr variant))]) ++
    [.implementation [] (some (libraryPath "ProtoEnum")) type
      [.function
        { isPublic := false, name := "from_i32", receiver := none
          params := [("value", .ofName "i32")], result := some (optionTy .self)
          body := [(Expr.select (var "value") (arms ++ [.mk .wild noneExpr])).value] },
       .function
        { attributes := [.flag "inline"], isPublic := false, name := "value"
          receiver := some .value, result := some (.ofName "i32"), body := [toNumber "self"] }],
     .implementation [] (some (.root ["core", "default", "Default"])) type
      [.function
        { isPublic := false, name := "default", receiver := none, result := some .self
          body := plan.default?.toList.map fun variant => (variantExpr variant).value }],
     .implementation []
      (some { rooted := true
              segments := [.name "core", .name "convert",
                .generic "From" false [.type type]] })
      (.ofName "i32")
      [.function
        { isPublic := false, name := "from", receiver := none, params := [("value", type)]
          result := some .self, body := [toNumber "value"] }]]

end EnumPlan

def enumItems (e : EnumDecl) : Generate (List Item) :=
  EnumPlan.items <$> EnumPlan.ofDecl e

end ProtoWire.Generator
