import ProtoWire.Generator.File
import ProtoWire.Proofs.Generator.Cycle
import ProtoWire.Proofs.Generator.Enum

/-!
# Declared types and their code

Messages and enums are declared in files and inside messages. The registry is made by one walk
through them, and code by another. Each walk comes by the same types, and what the registry says of
the place of a type is where its code is.
-/

namespace ProtoWire.Generator

open Code

variable {files : List FileDecl} {s : Site} {scope : Scope} {f : FileDecl} {items : List Item}

/-- A declared type. -/
inductive TypeDecl where
  | message (m : MessageDecl)
  | enum (e : EnumDecl)

/-- The name of a declared type. -/
def TypeDecl.name : TypeDecl → Option String
  | message m => m.name
  | enum e => e.name

/-- Whether types are declared inside a type. -/
def TypeDecl.hasTypes : TypeDecl → Bool
  | message m => !(m.messages.isEmpty && m.enums.isEmpty)
  | enum _ => false

/-- A type where it is declared. -/
structure Site where
  scope : Scope
  /-- The names of the messages around it. -/
  owners : List String
  name : String
  decl : TypeDecl
  named : decl.name = some name

namespace Site

/-- The qualified name of a declared type. -/
def qualified (s : Site) : String :=
  s.scope.qualify s.name

/-- The message modules around the code of a declared type. -/
def modules (s : Site) : List String :=
  s.owners.map moduleName

/-- What a declared type is. -/
def kind (s : Site) : TypeKind :=
  match s.decl with
  | .message _ => .message
  | .enum e => .enum (namedValues e)

/-- What is to be found in the registry of a declared type. -/
def info (s : Site) : TypeInfo :=
  { module := s.scope.module, path := s.modules ++ [typeName s.name], kind := s.kind }

/-- The entry of a declared type in the registry. -/
def entry (s : Site) : String × TypeInfo :=
  (s.qualified, s.info)

/-- The code of a declared type, without what is nested in it. -/
def code (setting : Setting) (isProto3 : Bool) (s : Site) : Generate (List Item) :=
  match s.decl with
  | .message m => MessagePlan.items <$> MessagePlan.ofDecl setting s.scope isProto3 m
  | .enum e => enumItems e

end Site

/-- The enums declared in a scope. -/
def enumSites (scope : Scope) (owners : List String) : List EnumDecl → List Site
  | [] => []
  | ⟨some name, values⟩ :: rest =>
    ⟨scope, owners, name, .enum ⟨some name, values⟩, rfl⟩ :: enumSites scope owners rest
  | ⟨none, _⟩ :: rest => enumSites scope owners rest

mutual

/-- A message and the types declared inside it. Without a name there are none. -/
def sitesOf (scope : Scope) (owners : List String) : MessageDecl → List Site
  | ⟨some name, fields, messages, enums, options, oneofs⟩ =>
    ⟨scope, owners, name, .message ⟨some name, fields, messages, enums, options, oneofs⟩, rfl⟩ ::
      (enumSites (scope.nested name) (owners ++ [name]) enums ++
        sitesIn (scope.nested name) (owners ++ [name]) messages)
  | ⟨none, _, _, _, _, _⟩ => []

/-- The messages declared in a scope, and the types declared inside them. -/
def sitesIn (scope : Scope) (owners : List String) : List MessageDecl → List Site
  | [] => []
  | m :: rest => sitesOf scope owners m ++ sitesIn scope owners rest

end

/-- The types of a file. -/
def fileSites (f : FileDecl) : List Site :=
  enumSites (Scope.ofFile f) [] f.enums ++ sitesIn (Scope.ofFile f) [] f.messages

/-- The types of files. -/
def sites (files : List FileDecl) : List Site :=
  files.flatMap fileSites

theorem mem_sites : s ∈ sites files ↔ ∃ f ∈ files, s ∈ fileSites f :=
  List.mem_flatMap

/-! ### Messages around a type -/

/-- A type is declared in the message of another one. -/
structure Site.IsInside (s parent : Site) : Prop where
  hasTypes : parent.decl.hasTypes = true
  owners : s.owners = parent.owners ++ [parent.name]
  scope : s.scope = parent.scope.nested parent.name

theorem Site.IsInside.modules_eq {parent : Site} (h : s.IsInside parent) :
    s.modules = parent.modules ++ [moduleName parent.name] := by
  rw [Site.modules, h.owners, List.map_append]
  rfl

/-- A type is declared in a scope, or inside a message among others. -/
def Site.HasPlace (scope : Scope) (owners : List String) (others : List Site) (s : Site) : Prop :=
  (s.owners = owners ∧ s.scope = scope) ∨ ∃ parent ∈ others, s.IsInside parent

theorem Site.HasPlace.mono {owners : List String} {others more : List Site} (hmore : others ⊆ more)
    (h : s.HasPlace scope owners others) : s.HasPlace scope owners more :=
  h.imp_right fun ⟨parent, hparent, hinside⟩ => ⟨parent, hmore hparent, hinside⟩

theorem place_of_mem_enumSites {owners : List String} {enums : List EnumDecl}
    (hs : s ∈ enumSites scope owners enums) : s.owners = owners ∧ s.scope = scope := by
  induction enums with
  | nil => cases hs
  | cons e rest ih =>
    obtain ⟨name, _⟩ := e
    cases name with
    | none => exact ih hs
    | some name =>
      rcases List.mem_cons.1 hs with rfl | hs
      · exact ⟨rfl, rfl⟩
      · exact ih hs

mutual

theorem hasPlace_of_mem_sitesOf {scope : Scope} {owners : List String} (m : MessageDecl) {s : Site}
    (hs : s ∈ sitesOf scope owners m) : s.HasPlace scope owners (sitesOf scope owners m) := by
  obtain ⟨name, _, messages, enums, _, _⟩ := m
  cases name with
  | none =>
    rw [sitesOf] at hs
    cases hs
  | some name =>
    rw [sitesOf] at hs ⊢
    rcases List.mem_cons.1 hs with rfl | hs
    · exact .inl ⟨rfl, rfl⟩
    · refine .inr ?_
      rcases List.mem_append.1 hs with hs | hs
      · obtain ⟨howners, hscope⟩ := place_of_mem_enumSites hs
        have henums : enums ≠ [] := by
          rintro rfl
          cases hs
        exact ⟨_, List.mem_cons_self, by simp [TypeDecl.hasTypes, henums], howners, hscope⟩
      · have hmessages : messages ≠ [] := by
          rintro rfl
          rw [sitesIn] at hs
          cases hs
        rcases hasPlace_of_mem_sitesIn messages hs with ⟨howners, hscope⟩ | ⟨parent, hparent, h⟩
        · exact ⟨_, List.mem_cons_self, by simp [TypeDecl.hasTypes, hmessages], howners, hscope⟩
        · exact ⟨parent, List.mem_cons_of_mem _ (List.mem_append_right _ hparent), h⟩

theorem hasPlace_of_mem_sitesIn {scope : Scope} {owners : List String} (ms : List MessageDecl)
    {s : Site} (hs : s ∈ sitesIn scope owners ms) :
    s.HasPlace scope owners (sitesIn scope owners ms) := by
  cases ms with
  | nil =>
    rw [sitesIn] at hs
    cases hs
  | cons m rest =>
    rw [sitesIn] at hs ⊢
    rcases List.mem_append.1 hs with hs | hs
    · exact (hasPlace_of_mem_sitesOf m hs).mono (List.subset_append_left _ _)
    · exact (hasPlace_of_mem_sitesIn rest hs).mono (List.subset_append_right _ _)

end

theorem hasPlace_of_mem_fileSites (hs : s ∈ fileSites f) :
    s.HasPlace (Scope.ofFile f) [] (fileSites f) := by
  rw [fileSites] at hs ⊢
  rcases List.mem_append.1 hs with hs | hs
  · exact .inl (place_of_mem_enumSites hs)
  · exact (hasPlace_of_mem_sitesIn f.messages hs).mono (List.subset_append_right _ _)

/-- What holds of the types at the top of a file, and of each type if it holds of the message around
it, holds of all types of the file. -/
theorem fileSites_induction {p : Site → Prop}
    (top : ∀ s ∈ fileSites f, s.owners = [] → s.scope = Scope.ofFile f → p s)
    (inside : ∀ s ∈ fileSites f, ∀ parent ∈ fileSites f, s.IsInside parent → p parent → p s) :
    ∀ s ∈ fileSites f, p s := by
  intro s hs
  -- The message around a type has one message less around it.
  induction hdepth : s.owners.length generalizing s with
  | zero =>
    rcases hasPlace_of_mem_fileSites hs with ⟨howners, hscope⟩ | ⟨parent, -, hinside⟩
    · exact top s hs howners hscope
    · simp [hinside.owners] at hdepth
  | succ depth ih =>
    rcases hasPlace_of_mem_fileSites hs with ⟨howners, -⟩ | ⟨parent, hparent, hinside⟩
    · simp [howners] at hdepth
    · rw [hinside.owners, List.length_append, List.length_singleton] at hdepth
      exact inside s hs parent hparent hinside (ih parent hparent (Nat.succ.inj hdepth))

/-- A type is in the module of its file, as many message modules deep as there are messages around
it. -/
theorem scope_of_mem_fileSites (hs : s ∈ fileSites f) :
    s.scope.module = fileModule f ∧ s.scope.depth = s.modules.length := by
  revert s
  apply fileSites_induction
  · intro s _ howners hscope
    rw [Site.modules, howners, hscope]
    exact ⟨rfl, rfl⟩
  · intro s _ parent _ hinside ⟨hmodule, hdepth⟩
    rw [hinside.modules_eq, hinside.scope, List.length_append]
    exact ⟨hmodule, congrArg (· + 1) hdepth⟩

/-! ### The registry -/

theorem registerEnum_eq (scope : Scope) (owners : List String) (enums : List EnumDecl) :
    enums.flatMap (registerEnum scope (owners.map moduleName)) =
      (enumSites scope owners enums).map Site.entry := by
  induction enums with
  | nil => rfl
  | cons e rest ih =>
    obtain ⟨name, _⟩ := e
    rw [List.flatMap_cons, ih]
    cases name with
    | none => rfl
    | some name => rfl

mutual

theorem perm_registerMessage (scope : Scope) (owners : List String) (m : MessageDecl) :
    (registerMessage scope (owners.map moduleName) m).Perm
      ((sitesOf scope owners m).map Site.entry) := by
  obtain ⟨name, _, messages, _, _, _⟩ := m
  cases name with
  | none =>
    rw [registerMessage, sitesOf]
    exact .nil
  | some name =>
    have hmodules : owners.map moduleName ++ [moduleName name] =
        (owners ++ [name]).map moduleName := by simp
    rw [registerMessage, sitesOf, List.map_cons, List.map_append, hmodules, registerEnum_eq]
    exact ((perm_registerMessages _ _ messages).append_right _ |>.trans
      List.perm_append_comm).cons _

theorem perm_registerMessages (scope : Scope) (owners : List String) (ms : List MessageDecl) :
    (registerMessages scope (owners.map moduleName) ms).Perm
      ((sitesIn scope owners ms).map Site.entry) := by
  cases ms with
  | nil =>
    rw [registerMessages, sitesIn]
    exact .nil
  | cons m rest =>
    rw [registerMessages, sitesIn, List.map_append]
    exact (perm_registerMessage scope owners m).append (perm_registerMessages scope owners rest)

end

theorem perm_registerFile (f : FileDecl) :
    (registerFile f).Perm ((fileSites f).map Site.entry) := by
  have henums := registerEnum_eq (Scope.ofFile f) [] f.enums
  rw [List.map_nil] at henums
  rw [registerFile, henums, fileSites, List.map_append]
  exact ((perm_registerMessages (Scope.ofFile f) [] f.messages).append_right _).trans
    List.perm_append_comm

namespace Registry

/-- The registry has an entry for each declared type, and no other. -/
theorem perm_ofFiles (files : List FileDecl) :
    (ofFiles files).Perm ((sites files).map Site.entry) := by
  rw [ofFiles, sites, List.map_flatMap]
  exact List.Perm.flatMap_left files fun f _ => perm_registerFile f

/-- Where no two types have one name, each is found by its own. -/
theorem find?_eq_some_iff (hfiles : ((sites files).map Site.qualified).Nodup) {name : String}
    {info : TypeInfo} :
    (ofFiles files).find? name = some info ↔
      ∃ s ∈ sites files, s.qualified = name ∧ s.info = info := by
  have hperm := perm_ofFiles files
  have hkeys : ((ofFiles files).map Prod.fst).Nodup := by
    rw [(hperm.map Prod.fst).nodup_iff, List.map_map]
    exact hfiles
  rw [find?, lookup_reverse_eq_some_iff hkeys, hperm.mem_iff, List.mem_map]
  simp only [Site.entry, Prod.mk.injEq]

theorem find?_eq_none {name : String} (hname : name ∉ (sites files).map Site.qualified) :
    (ofFiles files).find? name = none := by
  rw [find?, List.lookup_eq_none_iff]
  intro p hp
  rw [bne_iff_ne]
  rintro rfl
  obtain ⟨s, hs, rfl⟩ := List.mem_map.1 ((perm_ofFiles files).mem_iff.1 (List.mem_reverse.1 hp))
  exact hname (List.mem_map_of_mem hs)

end Registry

/-! ### Names of plans -/

theorem MessagePlan.ident_eq {setting : Setting} {isProto3 : Bool} {m : MessageDecl}
    {plan : MessagePlan} (h : ofDecl setting scope isProto3 m = .ok plan) {name : String}
    (hname : m.name = some name) : plan.ident = typeName name := by
  obtain ⟨_, _, hname', hident, -⟩ := ofDecl_eq_ok h
  rw [hname] at hname'
  cases hname'
  exact (identifier_eq_ok_iff.1 hident).2

namespace EnumPlan

variable {plan : EnumPlan}

theorem ident_eq {e : EnumDecl} (h : ofDecl e = .ok plan) {name : String}
    (hname : e.name = some name) : plan.ident = typeName name := by
  obtain ⟨_, hname', hfiles, -⟩ := ofDecl_eq_ok h
  rw [hname] at hname'
  cases hname'
  exact hfiles.ident_eq

end EnumPlan

/-! ### The code -/

/-- The name of the type that an item defines. -/
def definedName? : Item → Option String
  | .struct _ name _ | .enum _ name _ => some name
  | .implementation _ _ _ _ | .submodule _ _ => none

mutual

/-- The definitions of types in an item, each with the modules around it. -/
def definitions (modules : List String) : Item → List (List String × Item)
  | .struct attributes name fields => [(modules, .struct attributes name fields)]
  | .enum attributes name variants => [(modules, .enum attributes name variants)]
  | .implementation _ _ _ _ => []
  | .submodule name items => definitionsIn (modules ++ [name]) items

/-- The definitions of types in items, each with the modules around it. -/
def definitionsIn (modules : List String) : List Item → List (List String × Item)
  | [] => []
  | item :: rest => definitions modules item ++ definitionsIn modules rest

end

theorem definitionsIn_append (modules : List String) (items more : List Item) :
    definitionsIn modules (items ++ more) =
      definitionsIn modules items ++ definitionsIn modules more := by
  induction items with
  | nil => rfl
  | cons item items ih =>
    rw [List.cons_append, definitionsIn, definitionsIn, ih, List.append_assoc]

/-- A definition is the one that was made for a declared type: it is in the modules of that type,
has its name, and is part of its code. -/
structure IsEmitted (setting : Setting) (isProto3 : Bool) (s : Site)
    (definition : List String × Item) : Prop where
  modules : definition.1 = s.modules
  name : definedName? definition.2 = some (typeName s.name)
  code : ∃ items, s.code setting isProto3 = .ok items ∧ definition.2 ∈ items

variable {setting : Setting} {isProto3 : Bool}

theorem definitionsIn_messagePlan (modules : List String) (plan : MessagePlan) :
    definitionsIn modules plan.items =
      [(modules, .struct [.list "derive" ["Debug", "Clone"]] plan.ident plan.storage)] := by
  simp [MessagePlan.items, definitionsIn, definitions]

theorem exists_definitionsIn_enumPlan (modules : List String) (plan : EnumPlan) :
    ∃ item ∈ plan.items, definedName? item = some plan.ident ∧
      definitionsIn modules plan.items = [(modules, item)] := by
  unfold EnumPlan.items
  refine ⟨_, List.mem_append_left _ (List.mem_append_left _ (List.mem_singleton.2 rfl)), rfl, ?_⟩
  split <;> simp [definitionsIn, definitions]

theorem forall₂_definitions_enumsItems (scope : Scope) (owners : List String)
    {enums : List EnumDecl} (h : enumsItems enums = .ok items) :
    List.Forall₂ (IsEmitted setting isProto3) (enumSites scope owners enums)
      (definitionsIn (owners.map moduleName) items) := by
  induction enums generalizing items with
  | nil =>
    cases h
    exact .nil
  | cons e rest ih =>
    rw [enumsItems] at h
    obtain ⟨first, more, hfirst, hmore, rfl⟩ := append_eq_ok h
    obtain ⟨plan, hplan, rfl⟩ := map_eq_ok_iff.1 hfirst
    obtain ⟨name, _⟩ := e
    cases name with
    | none =>
      rw [EnumPlan.ofDecl] at hplan
      cases hplan
    | some name =>
      obtain ⟨item, hitem, hname, hdefinitions⟩ :=
        exists_definitionsIn_enumPlan (owners.map moduleName) plan
      rw [enumSites, definitionsIn_append, hdefinitions]
      rw [EnumPlan.ident_eq hplan rfl] at hname
      exact .cons ⟨rfl, hname, plan.items, map_eq_ok_iff.2 ⟨plan, hplan, rfl⟩, hitem⟩ (ih hmore)

theorem definitionsIn_nestedModule {modules : List String} {name : String} {nested : List Item}
    (h : nestedModule name nested = .ok items) :
    definitionsIn modules items = definitionsIn (modules ++ [moduleName name]) nested := by
  unfold nestedModule at h
  split at h
  · next hempty =>
    cases h
    rw [List.isEmpty_iff.1 hempty]
    rfl
  · obtain ⟨ident, hident, h⟩ := bind_eq_ok_iff.1 h
    cases h
    rw [(identifier_eq_ok_iff.1 hident).2, definitionsIn, definitions, definitionsIn,
      List.append_nil]

mutual

theorem forall₂_definitions_messageItems (scope : Scope) (owners : List String) (m : MessageDecl)
    {items : List Item} (h : messageItems setting scope isProto3 m = .ok items) :
    List.Forall₂ (IsEmitted setting isProto3) (sitesOf scope owners m)
      (definitionsIn (owners.map moduleName) items) := by
  obtain ⟨name, _, messages, _, _, _⟩ := m
  rw [messageItems] at h
  obtain ⟨plan, hplan, h⟩ := bind_eq_ok_iff.1 h
  obtain ⟨nestedEnums, henums, h⟩ := bind_eq_ok_iff.1 h
  obtain ⟨nestedMessages, hmessages, h⟩ := bind_eq_ok_iff.1 h
  obtain ⟨nested, hnested, h⟩ := bind_eq_ok_iff.1 h
  cases h
  cases name with
  | none =>
    obtain ⟨_, _, hname, -⟩ := MessagePlan.ofDecl_eq_ok hplan
    cases hname
  | some name =>
    have hmodules : owners.map moduleName ++ [moduleName name] =
        (owners ++ [name]).map moduleName := by simp
    rw [sitesOf, definitionsIn_append, definitionsIn_messagePlan,
      definitionsIn_nestedModule hnested, Option.getD_some, hmodules, definitionsIn_append]
    refine .cons ⟨rfl, ?_, plan.items, map_eq_ok_iff.2 ⟨plan, hplan, rfl⟩, List.mem_cons_self⟩
      (List.rel_append (forall₂_definitions_enumsItems _ _ henums)
        (forall₂_definitions_messagesItems _ _ messages hmessages))
    exact congrArg some (MessagePlan.ident_eq hplan rfl)

theorem forall₂_definitions_messagesItems (scope : Scope) (owners : List String)
    (ms : List MessageDecl) {items : List Item}
    (h : messagesItems setting scope isProto3 ms = .ok items) :
    List.Forall₂ (IsEmitted setting isProto3) (sitesIn scope owners ms)
      (definitionsIn (owners.map moduleName) items) := by
  cases ms with
  | nil =>
    rw [messagesItems] at h
    cases h
    rw [sitesIn]
    exact .nil
  | cons m rest =>
    rw [messagesItems] at h
    obtain ⟨first, more, hfirst, hmore, rfl⟩ := append_eq_ok h
    rw [sitesIn, definitionsIn_append]
    exact List.rel_append (forall₂_definitions_messageItems scope owners m hfirst)
      (forall₂_definitions_messagesItems scope owners rest hmore)

end

/-- The code of a file has one definition for each type that the file declares, in order, in the
modules that the registry has for it and under the name that the registry has. -/
theorem forall₂_definitions (h : fileItems setting f = .ok items) :
    List.Forall₂ (IsEmitted setting f.isProto3) (fileSites f) (definitionsIn [] items) := by
  rw [fileItems] at h
  obtain ⟨enums, messages, henums, hmessages, rfl⟩ := append_eq_ok h
  rw [fileSites, definitionsIn_append]
  exact List.rel_append (forall₂_definitions_enumsItems (Scope.ofFile f) [] henums)
    (forall₂_definitions_messagesItems (Scope.ofFile f) [] f.messages hmessages)

end ProtoWire.Generator
