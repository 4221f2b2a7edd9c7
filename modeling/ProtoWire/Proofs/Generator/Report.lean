import ProtoWire.Proofs.Generator.Gather
import ProtoWire.Proofs.Generator.Name
import ProtoWire.Proofs.Generator.Site

/-!
# Failures that are reported

A request is answered by files or by an error. There is no answer if no identifier can be made of a
name, which with plain names happens to some types and enum values only, or if code becomes no text.
-/

namespace ProtoWire.Generator

open Source Text

variable {name : String} {s : Site}

/-- A result is there, or the failure is an error or among those expected. -/
def Reports {α : Type} (p : Failure → Prop) (x : Generate α) : Prop :=
  ∀ failure, x = .error failure → (∃ e, failure = .error e) ∨ p failure

section Reports

variable {α β : Type} {p : Failure → Prop}

theorem reports_ok (a : α) : Reports p (.ok a) := by
  intro failure h
  cases h

theorem reports_fail (e : GenerateError) : Reports p (fail e : Generate α) := by
  intro failure h
  cases h
  exact .inl ⟨e, rfl⟩

theorem reports_orFail (e : GenerateError) (value : Option α) : Reports p (orFail e value) := by
  cases value with
  | none => exact reports_fail e
  | some a => exact reports_ok a

theorem reports_mapError (x : Except GenerateError α) : Reports p (x.mapError .error) := by
  cases x with
  | error e => exact reports_fail e
  | ok a => exact reports_ok a

theorem reports_bind {x : Generate α} {f : α → Generate β} (hx : Reports p x)
    (hf : ∀ a, x = .ok a → Reports p (f a)) : Reports p (x >>= f) := by
  cases x with
  | error failure =>
    intro _ h
    cases h
    exact hx failure rfl
  | ok a => exact hf a rfl

theorem reports_map {x : Generate α} (f : α → β) (hx : Reports p x) : Reports p (f <$> x) := by
  cases x with
  | error failure =>
    intro _ h
    cases h
    exact hx failure rfl
  | ok a => exact reports_ok (f a)

theorem reports_identifier (h : isLegal name = false → p (.illegalName name)) :
    Reports p (identifier name) := by
  unfold identifier
  split
  · exact reports_ok name
  · next hillegal =>
    intro _ heq
    cases heq
    exact .inr (h (Bool.eq_false_iff.2 hillegal))

theorem reports_identifier_of_isLegal (h : isLegal name = true) : Reports p (identifier name) :=
  reports_identifier fun hillegal => absurd (h.symm.trans hillegal) (by decide)

end Reports

/-! ### Names of declared types -/

/-- The names that are declared in a type, of fields, oneofs or values. -/
def TypeDecl.memberNames : TypeDecl → List String
  | message m => m.fields.filterMap (·.name) ++ m.oneofs.filterMap (·.name)
  | enum e => e.values.filterMap (·.name)

/-- All names that a declared type brings are plain. -/
structure Site.HasPlainNames (s : Site) : Prop where
  name : IsPlain s.name
  members : ∀ name ∈ s.decl.memberNames, IsPlain name

/-- Whether the first letter of a name comes before any digit. -/
def startsWithLetter (name : String) : Bool :=
  (name.toList.dropWhile (· == '_')).head?.any Char.isAlpha

/-- What a declared type becomes has a name of which no identifier can be made. -/
inductive Site.Unnameable (s : Site) : String → Prop
  /-- The type has the name of a keyword that cannot be escaped. -/
  | type (h : s.name ∈ bareKeywords) : s.Unnameable (typeName s.name)
  /-- An enum value has a digit before its first letter, or no letter. -/
  | value {e : EnumDecl} {v : EnumValueDecl} {name : String} (hdecl : s.decl = .enum e)
      (hv : v ∈ e.values) (hname : v.name = some name) (h : startsWithLetter name = false) :
      s.Unnameable (pascalCase name)

/-- All names that a declared type brings are plain, and those of which no identifier can be made
are expected. -/
structure Site.IsExpected (p : Failure → Prop) (s : Site) : Prop where
  plain : s.HasPlainNames
  unnameable : ∀ name, s.Unnameable name → p (.illegalName name)

variable {p : Failure → Prop}

theorem Site.IsExpected.reports_typeName (hs : s.IsExpected p) :
    Reports p (identifier (typeName s.name)) := by
  refine reports_identifier fun hillegal => hs.unnameable _ (.type ?_)
  by_contra hnot
  exact absurd ((isLegal_typeName_iff hs.plain.name).2 hnot) (by simp [hillegal])

/-! ### Enums -/

namespace EnumPlan

theorem reports_addValue {plan : EnumPlan} {v : EnumValueDecl}
    (hv : ∀ name, v.name = some name → IsPlain name)
    (hp : ∀ name, v.name = some name → startsWithLetter name = false →
      p (.illegalName (pascalCase name))) :
    Reports p (plan.addValue v) := by
  unfold addValue
  refine reports_bind (reports_orFail _ _) fun name hname => ?_
  have hname := orFail_eq_ok_iff.1 hname
  refine reports_bind (reports_orFail _ _) fun number _ => ?_
  refine reports_bind (reports_identifier fun hillegal => hp name hname ?_) fun variant _ => ?_
  · rw [Bool.eq_false_iff]
    intro hletter
    exact absurd ((isLegal_pascalCase_iff (hv name hname)).2 hletter) (by simp [hillegal])
  · split
    · exact reports_bind (reports_identifier_of_isLegal (isLegal_of_isPlain (hv name hname)))
        fun _ _ => reports_ok _
    · exact reports_ok _

theorem reports_foldlM {values : List EnumValueDecl} (plan : EnumPlan)
    (hvalues : ∀ v ∈ values, ∀ name, v.name = some name → IsPlain name)
    (hp : ∀ v ∈ values, ∀ name, v.name = some name → startsWithLetter name = false →
      p (.illegalName (pascalCase name))) : Reports p (values.foldlM addValue plan) := by
  induction values generalizing plan with
  | nil => exact reports_ok plan
  | cons v rest ih =>
    obtain ⟨hv, hrest⟩ := List.forall_mem_cons.1 hvalues
    obtain ⟨hpv, hprest⟩ := List.forall_mem_cons.1 hp
    rw [List.foldlM_cons]
    exact reports_bind (reports_addValue hv hpv) fun next _ => ih next hrest hprest

end EnumPlan

theorem reports_enumItems (hs : s.IsExpected p) {e : EnumDecl} (hdecl : s.decl = .enum e) :
    Reports p (enumItems e) := by
  have hname : e.name = some s.name := by
    have hnamed := s.named
    rwa [hdecl] at hnamed
  refine reports_map _ ?_
  unfold EnumPlan.ofDecl
  rw [hname]
  refine reports_bind (reports_ok _) fun _ heq => ?_
  cases heq
  refine reports_bind hs.reports_typeName fun ident _ => ?_
  refine reports_bind (EnumPlan.reports_foldlM _ (fun v hv name hv' => ?_)
    fun v hv name hv' hletter => hs.unnameable _ (.value hdecl hv hv' hletter)) fun plan _ => ?_
  · have hmembers := hs.plain.members
    rw [hdecl] at hmembers
    exact hmembers name (List.mem_filterMap.2 ⟨v, hv, hv'⟩)
  · split
    · exact reports_bind (reports_fail _) fun _ _ => reports_ok _
    · exact reports_ok _

/-! ### Messages -/

theorem Registry.reports_resolve (registry : Registry) (options : Options) (scope : Scope)
    (name : String) : Reports p (registry.resolve options scope name) := by
  unfold resolve
  split
  · exact reports_orFail _ _
  · exact reports_bind (reports_orFail _ _) fun _ _ => reports_orFail _ _

theorem OneofPlan.reports_ofDecl? (index : Nat) {o : OneofDecl} (bit : Option PresenceBit)
    (ho : ∀ name, o.name = some name → IsPlain name) : Reports p (ofDecl? index o bit) := by
  unfold ofDecl?
  split
  · exact reports_ok _
  · refine reports_bind (reports_orFail _ _) fun name hname => ?_
    have hbase := isPlain_bareName_fieldName (ho name (orFail_eq_ok_iff.1 hname))
    have hcase : isLegal (bareName (fieldName name) ++ "_case") = true :=
      isLegal_of_isPlain (hbase.append (by decide))
    have hclear : isLegal ("clear_" ++ bareName (fieldName name)) = true :=
      isLegal_of_isPlain (IsPlain.append (by decide)
        (List.all_eq_true.2 fun _ => isPlainPart_of_mem hbase))
    exact reports_bind (reports_identifier_of_isLegal hcase) fun _ _ =>
      reports_bind (reports_identifier_of_isLegal hclear) fun _ _ => reports_ok _

theorem OneofPlan.reports_collectFrom (bits : List (Option PresenceBit)) (index : Nat)
    {oneofs : List OneofDecl} (h : ∀ o ∈ oneofs, ∀ name, o.name = some name → IsPlain name) :
    Reports p (collectFrom bits index oneofs) := by
  induction oneofs generalizing index with
  | nil => exact reports_ok _
  | cons o rest ih =>
    obtain ⟨ho, hrest⟩ := List.forall_mem_cons.1 h
    rw [collectFrom]
    exact reports_bind (reports_ofDecl? _ _ ho) fun _ _ =>
      reports_bind (ih _ hrest) fun _ _ => reports_ok _

section Plans

variable {setting : Setting} {scope : Scope} {isProto3 : Bool}

theorem FieldPlan.reports_elementOf (f : FieldDecl) (category : Category) :
    Reports p (elementOf setting scope f category) := by
  cases category with
  | scalar kind | text | blob => exact reports_ok _
  | enum | message | group => exact Registry.reports_resolve _ _ _ _

theorem FieldPlan.reports_ofDecl {message : String} {f : FieldDecl} {strategy : Strategy}
    {bit : Option PresenceBit} {oneof : Option OneofNames}
    (hf : ∀ name, f.name = some name → IsPlain name) :
    Reports p (ofDecl setting scope message f strategy bit oneof) := by
  unfold ofDecl
  refine reports_bind (reports_orFail _ _) fun name hname => ?_
  have hlegal := isLegal_fieldName (hf name (orFail_eq_ok_iff.1 hname))
  refine reports_bind (reports_orFail _ _) fun _ _ => ?_
  refine reports_bind (reports_identifier_of_isLegal hlegal) fun _ _ => ?_
  refine reports_bind (reports_elementOf f _) fun _ _ => ?_
  exact reports_bind (reports_mapError _) fun _ _ => reports_ok _

theorem MessagePlan.reports_planFields {message : String} {oneofs : List OneofPlan}
    {parts : List (FieldDecl × Strategy × Option PresenceBit)}
    (h : ∀ part ∈ parts, ∀ name, part.1.name = some name → IsPlain name) :
    Reports p (planFields setting scope message oneofs parts) := by
  induction parts with
  | nil => exact reports_ok _
  | cons part rest ih =>
    cases part
    obtain ⟨hf, hrest⟩ := List.forall_mem_cons.1 h
    rw [planFields]
    exact reports_bind (FieldPlan.reports_ofDecl hf) fun _ _ =>
      reports_bind (ih hrest) fun _ _ => reports_ok _

theorem MessagePlan.reports_ofDecl (hs : s.IsExpected p) {m : MessageDecl}
    (hdecl : s.decl = .message m) : Reports p (ofDecl setting scope isProto3 m) := by
  have hname : m.name = some s.name := by
    have hnamed := s.named
    rwa [hdecl] at hnamed
  have hmembers := hs.plain.members
  rw [hdecl, TypeDecl.memberNames, List.forall_mem_append] at hmembers
  obtain ⟨hfields, honeofs⟩ := hmembers
  unfold ofDecl
  rw [hname]
  refine reports_bind (reports_ok _) fun _ heq => ?_
  cases heq
  refine reports_bind hs.reports_typeName fun ident _ => ?_
  refine reports_bind (reports_mapError _) fun strategies _ => ?_
  refine reports_bind (OneofPlan.reports_collectFrom _ _ fun o ho name hname =>
    honeofs name (List.mem_filterMap.2 ⟨o, ho, hname⟩)) fun oneofs _ => ?_
  refine reports_bind (reports_planFields fun part hpart name hname => ?_) fun fields _ => ?_
  · exact hfields name (List.mem_filterMap.2 ⟨part.1, (List.of_mem_zip hpart).1, hname⟩)
  split
  · exact reports_fail _
  · exact reports_ok _

/-! ### Files -/

theorem reports_enumsItems (scope : Scope) (owners : List String) {enums : List EnumDecl}
    (h : ∀ s ∈ enumSites scope owners enums, s.IsExpected p) : Reports p (enumsItems enums) := by
  induction enums with
  | nil => exact reports_ok _
  | cons e rest ih =>
    obtain ⟨name, _⟩ := e
    rw [enumsItems]
    cases name with
    | none => exact reports_bind (reports_fail .missingName) fun _ h => by cases h
    | some name =>
      rw [enumSites] at h
      obtain ⟨hfirst, hrest⟩ := List.forall_mem_cons.1 h
      exact reports_bind (reports_enumItems hfirst rfl) fun _ _ =>
        reports_bind (ih hrest) fun _ _ => reports_ok _

theorem reports_nestedModule (hname : IsPlain name) (nested : List Code.Item) :
    Reports p (nestedModule name nested) := by
  unfold nestedModule
  split
  · exact reports_ok _
  · exact reports_bind (reports_identifier_of_isLegal (isLegal_fieldName hname))
      fun _ _ => reports_ok _

mutual

theorem reports_messageItems (scope : Scope) (owners : List String) (m : MessageDecl)
    (h : ∀ s ∈ sitesOf scope owners m, s.IsExpected p) :
    Reports p (messageItems setting scope isProto3 m) := by
  obtain ⟨name, _, messages, _, _, _⟩ := m
  rw [messageItems]
  -- A message without a name is an error before anything inside it is looked at.
  cases name with
  | none => exact reports_bind (reports_fail .missingName) fun _ h => by cases h
  | some name =>
    rw [sitesOf] at h
    obtain ⟨hfirst, hrest⟩ := List.forall_mem_cons.1 h
    obtain ⟨henums, hmessages⟩ := List.forall_mem_append.1 hrest
    refine reports_bind (MessagePlan.reports_ofDecl hfirst rfl) fun plan _ => ?_
    refine reports_bind (reports_enumsItems _ _ henums) fun nestedEnums _ => ?_
    refine reports_bind (reports_messagesItems _ _ messages hmessages) fun nestedMessages _ => ?_
    exact reports_bind (reports_nestedModule hfirst.plain.name _) fun _ _ => reports_ok _

theorem reports_messagesItems (scope : Scope) (owners : List String) (ms : List MessageDecl)
    (h : ∀ s ∈ sitesIn scope owners ms, s.IsExpected p) :
    Reports p (messagesItems setting scope isProto3 ms) := by
  cases ms with
  | nil =>
    rw [messagesItems]
    exact reports_ok _
  | cons m rest =>
    rw [sitesIn] at h
    obtain ⟨hfirst, hrest⟩ := List.forall_mem_append.1 h
    rw [messagesItems]
    exact reports_bind (reports_messageItems scope owners m hfirst) fun _ _ =>
      reports_bind (reports_messagesItems scope owners rest hrest) fun _ _ => reports_ok _

end

/-- The code of a file fails only by an error, or at a name that one of its types brings. -/
theorem reports_fileItems {f : FileDecl} (h : ∀ s ∈ fileSites f, s.IsExpected p) :
    Reports p (fileItems setting f) := by
  rw [fileSites] at h
  obtain ⟨henums, hmessages⟩ := List.forall_mem_append.1 h
  exact reports_bind (reports_enumsItems _ _ henums) fun _ _ =>
    reports_bind (reports_messagesItems _ _ f.messages hmessages) fun _ _ => reports_ok _

theorem reports_collectModules {files : List FileDecl}
    (modules : List (String × List Code.Item)) (h : ∀ s ∈ sites files, s.IsExpected p) :
    Reports p (collectModules setting modules files) := by
  induction files generalizing modules with
  | nil => exact reports_ok _
  | cons f rest ih =>
    rw [sites, List.flatMap_cons] at h
    obtain ⟨hf, hrest⟩ := List.forall_mem_append.1 h
    exact reports_bind (reports_fileItems hf) fun _ _ => ih _ hrest

end Plans

theorem reports_renderModules {render : Renderer} {options : Options}
    {modules : List (String × List Code.Item)}
    (h : ∀ entry ∈ modules, ∀ failure, render options entry.2 = .error failure → p failure) :
    Reports p (renderModules render options modules) := by
  induction modules with
  | nil => exact reports_ok _
  | cons entry rest ih =>
    obtain ⟨hentry, hrest⟩ := List.forall_mem_cons.1 h
    exact reports_bind (fun failure hfailure => .inr (hentry failure hfailure)) fun _ _ =>
      reports_bind (ih hrest) fun _ _ => reports_ok _

/-! ### Requests -/

/-- The files that a request asks for. -/
def selectedFiles (r : Request) : List FileDecl :=
  r.files.filter (isSelected (some r.filesToGenerate))

/-- The code of a module of a request, and the options that it becomes text with. -/
def IsModuleOf (r : Request) (options : Options) (items : List Code.Item) : Prop :=
  ({} : Options).applyParameter (r.parameter.getD "") = (.ok (), options) ∧
  ∃ modules module, (module, items) ∈ modules ∧
    collectModules (Setting.ofFiles options r.files) [] (selectedFiles r) = .ok modules

theorem reports_requestedFiles {render : Renderer} {r : Request}
    (hsites : ∀ s ∈ sites (selectedFiles r), s.IsExpected p)
    (hrender : ∀ options items failure, IsModuleOf r options items →
      render options items = .error failure → p failure) : Reports p (requestedFiles r render) := by
  unfold requestedFiles
  split
  · exact reports_fail _
  · next options happly =>
    refine reports_bind (reports_collectModules [] hsites) fun modules hmodules => ?_
    refine reports_bind (reports_renderModules fun entry hentry failure => ?_)
      fun _ _ => reports_ok _
    exact hrender options entry.2 failure ⟨happly, modules, entry.1, hentry, hmodules⟩

theorem requestedFiles_ne_nil {render : Renderer} {r : Request} {files : List GeneratedFile}
    (h : requestedFiles r render = .ok files) : files ≠ [] := by
  unfold requestedFiles at h
  split at h
  · cases h
  · obtain ⟨modules, generated, rfl, -⟩ := exists_of_generateFiles h
    exact List.append_ne_nil_of_right_ne_nil _ (List.cons_ne_nil _ _)

/-- A response has files, or the text of an error. -/
def IsAnswer (response : Response) : Prop :=
  (response.files ≠ [] ∧ response.error = none) ∨
    (response.files = [] ∧ ∃ text, response.error = some text)

/-- Code that is well formed and has no layout. -/
def HasNoLayout (items : List Code.Item) : Prop :=
  ∃ program, Program.read? (Token.render (Code.itemsTokens items)) = some program ∧
    program.hasLayout = false

theorem renderCode_eq_error {options : Options} {items : List Code.Item} {failure : Failure}
    (h : renderCode options items = .error failure) (hfailure : ∀ e, failure ≠ .error e) :
    failure = .noLayout ∧ options.skipFormat = false ∧ HasNoLayout items := by
  unfold renderCode at h
  dsimp only at h
  split at h
  · cases h
  · next hformat =>
    split at h
    · next program hprogram =>
      split at h
      · cases h
      · next hlayout =>
        cases h
        exact ⟨rfl, Bool.eq_false_iff.2 hformat, program, hprogram, Bool.eq_false_iff.2 hlayout⟩
    · cases h
      exact absurd rfl (hfailure _)

/-- A request whose names are plain is answered by files or an error, unless one of the files that
it asks for declares a type with the name of a keyword that cannot be escaped, or an enum value
without a letter before its first digit, or the code of a module becomes no text. The last happens
only to code that is formatted and has no layout. -/
theorem requests_answered (render : Renderer) (r : Request)
    (hr : ∀ s ∈ sites (selectedFiles r), s.HasPlainNames) :
    (∃ response, respond r render = .ok response ∧ IsAnswer response) ∨
      (∃ s ∈ sites (selectedFiles r), ∃ name, s.Unnameable name ∧
        respond r render = .error (.illegalName name)) ∨
      ∃ options items failure, IsModuleOf r options items ∧
        render options items = .error failure ∧ respond r render = .error failure ∧
        (render = renderCode →
          failure = .noLayout ∧ options.skipFormat = false ∧ HasNoLayout items) := by
  have hreports : Reports (fun failure =>
      (∃ s ∈ sites (selectedFiles r), ∃ name, s.Unnameable name ∧ failure = .illegalName name) ∨
        ∃ options items, IsModuleOf r options items ∧ render options items = .error failure)
      (requestedFiles r render) :=
    reports_requestedFiles
      (fun s hs => ⟨hr s hs, fun name hname => .inl ⟨s, hs, name, hname, rfl⟩⟩)
      fun options items failure hitems hfailure => .inr ⟨options, items, hitems, hfailure⟩
  unfold respond
  cases hfiles : requestedFiles r render with
  | ok files =>
    refine .inl ⟨_, rfl, .inl ⟨?_, rfl⟩⟩
    exact List.map_eq_nil_iff.not.2 (requestedFiles_ne_nil hfiles)
  | error failure =>
    cases failure with
    | error e => exact .inl ⟨_, rfl, .inr ⟨rfl, e.message, rfl⟩⟩
    | illegalName | noLayout =>
      rcases hreports _ hfiles with ⟨e, ⟨⟩⟩ | ⟨s, hs, name, hname, hfailure⟩ | hrender
      · exact .inr (.inl ⟨s, hs, name, hname, congrArg Except.error hfailure⟩)
      · obtain ⟨options, items, hitems, hfailure⟩ := hrender
        refine .inr (.inr ⟨options, items, _, hitems, hfailure, rfl, ?_⟩)
        rintro rfl
        exact renderCode_eq_error hfailure fun e heq => by cases heq

/-- A request for the bare code of an enum. -/
def requestFor (e : EnumDecl) : Request :=
  { filesToGenerate := ["a.proto"], parameter := some "skip_format"
    files := [enumFile "a.proto" "a" e] }

theorem requests_answered_keyword :
    (∀ s ∈ sites (selectedFiles (requestFor (loneEnum "type" "_self"))), s.HasPlainNames) ∧
    ∃ response, respond (requestFor (loneEnum "type" "_self")) = .ok response ∧
      IsAnswer response := by
  have hnames : ∀ s ∈ sites (selectedFiles (requestFor (loneEnum "type" "_self"))),
      s.HasPlainNames := by
    have hall : ∀ s ∈ sites (selectedFiles (requestFor (loneEnum "type" "_self"))),
        IsPlain s.name ∧ ∀ name ∈ s.decl.memberNames, IsPlain name := by decide +kernel
    exact fun s hs => ⟨(hall s hs).1, (hall s hs).2⟩
  refine ⟨hnames, (requests_answered renderCode _ hnames).resolve_right fun hfailed => ?_⟩
  have hok : (respond (requestFor (loneEnum "type" "_self"))).toOption.isSome = true := by
    decide +kernel
  obtain ⟨s, -, name, -, hfailed⟩ | ⟨options, items, failure, -, -, hfailed, -⟩ := hfailed <;>
    rw [hfailed] at hok <;> cases hok

/-- Requests with plain names that are not answered. -/
theorem requests_unanswered :
    (∀ s ∈ sites (selectedFiles (requestFor (loneEnum "Self" "A"))) ++
        sites (selectedFiles (requestFor (loneEnum "Kind" "_1"))),
      IsPlain s.name ∧ ∀ name ∈ s.decl.memberNames, IsPlain name) ∧
    respond (requestFor (loneEnum "Self" "A")) = .error (.illegalName "r#Self") ∧
    respond (requestFor (loneEnum "Kind" "_1")) = .error (.illegalName "1") :=
  ⟨by decide +kernel, rfl, rfl⟩

end ProtoWire.Generator
