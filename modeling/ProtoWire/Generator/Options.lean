import ProtoWire.Decimal.Integer
import ProtoWire.Field.Order
import ProtoWire.Generator.Error
import ProtoWire.Text.Blank
import ProtoWire.Text.Split

/-!
# Options of generation

* `Options`: the choices that shape generated code.
* `Options.applyParameter`: options given as text, such as `indent=2,input_order=number`.
-/

namespace ProtoWire.Generator

/-- The choices that shape generated code. -/
structure Options where
  /-- Getters fail when their field is not present. -/
  enforceHasChecks : Bool := false
  /-- There are accessors that answer nothing for an absent field. -/
  optionalAccessors : Bool := true
  /-- One step of indentation. -/
  indent : String := "    "
  order : FieldOrder := .declaration
  /-- Code is written as bare tokens. -/
  skipFormat : Bool := false
  /-- Paths of types that are defined elsewhere, by their qualified names. -/
  externPaths : List (String × String) := []

def flag? (text : String) : Option Bool :=
  match Text.trim text with
  | "true" | "1" | "yes" => some true
  | "false" | "0" | "no" => some false
  | _ => none

/-- One step of indentation: a tab, or up to sixteen blanks. -/
def indent? (text : String) : Option String :=
  match Text.trim text with
  | "tab" => some "\t"
  | digits =>
    match Decimal.unsigned? 16 digits with
    | some n => if n = 0 then none else some (String.ofList (List.replicate n ' '))
    | none => none

def order? (text : String) : Option FieldOrder :=
  match Text.trim text with
  | "declaration" => some .declaration
  | "number" | "ascending" => some .ascending
  | "none" => some .unordered
  | _ => none

namespace Options

/-- Applies one option, a key and perhaps a value. Without a value it is true, and an unknown key is
ignored. -/
def applyOption? (o : Options) (option : String) : Option Options :=
  let (key, value) := (Text.splitOnce '=' option).getD (option, "true")
  match Text.trim key with
  | "enforce_has_checks" => (flag? value).map fun b => { o with enforceHasChecks := b }
  | "optional_accessors" => (flag? value).map fun b => { o with optionalAccessors := b }
  | "indent" => (indent? value).map fun indent => { o with indent }
  | "input_order" => (order? value).map fun order => { o with order }
  | "skip_format" => (flag? value).map fun b => { o with skipFormat := b }
  | _ => some o

/-- Applies options up to a bad one, and answers what was applied. -/
def applyAll (o : Options) : List String → Except GenerateError Unit × Options
  | [] => (.ok (), o)
  | option :: rest =>
    match o.applyOption? option with
    | some o => o.applyAll rest
    | none => (.error (.invalidParameter option), o)

/-- Applies the options of a text, which have commas between them. Options before a bad one stay
applied. -/
def applyParameter (o : Options) (text : String) : Except GenerateError Unit × Options :=
  o.applyAll (((Text.split ',' text).map Text.trim).filter (· != ""))

end Options

end ProtoWire.Generator
