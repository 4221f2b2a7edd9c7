import ProtoWire.Proofs.Generator.Gather
import ProtoWire.Proofs.Generator.Name
import ProtoWire.Proofs.Generator.Site
import ProtoWire.Proofs.Source.Path

/-!
# Paths that lead to definitions

Code refers to a type by a path. The path is read from the module that the code is in: it leaves
modules first, and then goes down into others. This module proves that it ends at the definition.
-/

namespace ProtoWire

/-! ### Reading a path -/

namespace Code

/-- The name that a segment is. -/
def Segment.name? : Segment → Option String
  | .name word => some word
  | .generic _ _ _ | .spelled _ => none

/-- The names of a path that has nothing but names. -/
def Path.names? (path : Path) : Option (List String) :=
  if path.rooted then none else path.segments.mapM Segment.name?

theorem Path.names?_ofNames (names : List String) :
    Path.names? { rooted := false, segments := names.map .name } = some names := by
  induction names with
  | nil => rfl
  | cons name rest ih =>
    simp only [names?, Bool.false_eq_true, if_false] at ih
    simp [names?, Segment.name?, ih]

end Code

namespace Generator

open Code Source Text

variable {scope : Scope} {f : FileDecl} {s : Site}

/-- Where segments lead from a module, which is given by the modules from the root down to it: each
`super` in front leaves a module, and all others go down into one. -/
def follow? (place : List String) : List String → Option (List String)
  | [] => some place
  | segment :: rest =>
    if segment = "super" then
      if place = [] then none else follow? place.dropLast rest
    else if (segment :: rest).any bareKeywords.contains then none
    else some (place ++ segment :: rest)

/-- Where a path leads from a module. -/
def leadsTo? (place : List String) (path : Path) : Option (List String) :=
  path.names?.bind (follow? place)

theorem follow?_down (place : List String) {segments : List String}
    (h : ∀ segment ∈ segments, segment ∉ bareKeywords) :
    follow? place segments = some (place ++ segments) := by
  cases segments with
  | nil => rw [follow?, List.append_nil]
  | cons segment rest =>
    have hsuper : segment ≠ "super" := by
      rintro rfl
      exact h _ List.mem_cons_self (by decide)
    have hnone : (segment :: rest).any bareKeywords.contains = false :=
      List.any_eq_false.2 fun other hother => mt List.contains_iff_mem.1 (h other hother)
    rw [follow?, if_neg hsuper, hnone]
    rfl

theorem follow?_super {place : List String} (hplace : place ≠ []) (rest : List String) :
    follow? place ("super" :: rest) = follow? place.dropLast rest := by
  rw [follow?, if_pos rfl, if_neg hplace]

theorem follow?_replicate (place modules rest : List String) :
    follow? (place ++ modules) (List.replicate modules.length "super" ++ rest) =
      follow? place rest := by
  -- The first `super` leaves the last module, so the modules are taken from the inside out.
  induction modules using List.reverseRecOn with
  | nil => simp
  | append_singleton modules module ih =>
    rw [List.length_append, List.length_singleton, List.replicate_succ, List.cons_append,
      follow?_super (by simp), ← List.append_assoc, List.dropLast_concat, ih]

theorem follow?_segmentsFrom {info : TypeInfo} {modules : List String}
    (hdepth : scope.depth = modules.length) (hpath : ∀ segment ∈ info.path, segment ∉ bareKeywords)
    (hmodule : info.module ∉ bareKeywords) :
    follow? (scope.module :: modules) (info.segmentsFrom scope) =
      some (info.module :: info.path) := by
  have hup (rest : List String) :
      follow? (scope.module :: modules) (List.replicate scope.depth "super" ++ rest) =
        follow? [scope.module] rest := by
    rw [hdepth]
    exact follow?_replicate [scope.module] modules rest
  rw [TypeInfo.segmentsFrom, List.append_assoc, hup]
  split
  · next hsame =>
    rw [List.nil_append, follow?_down _ hpath, beq_iff_eq.1 hsame]
    rfl
  · rw [List.cons_append, follow?_super (by simp), List.singleton_append,
      follow?_down _ (List.forall_mem_cons.2 ⟨hmodule, hpath⟩)]
    rfl

/-- What holds of every segment of a type holds of its path, and of its module if that is
another. -/
theorem forall_mem_segmentsFrom {p : String → Prop} (hsuper : p "super") {info : TypeInfo} :
    (∀ segment ∈ info.segmentsFrom scope, p segment) ↔
      (info.module = scope.module ∨ p info.module) ∧ ∀ segment ∈ info.path, p segment := by
  rw [TypeInfo.segmentsFrom, List.forall_mem_append, List.forall_mem_append]
  by_cases hmodule : info.module = scope.module
  · simp [hmodule, hsuper]
  · simp [hmodule, hsuper]

/-! ### Legal names -/

/-- Files with names that a schema may have, of which no two types have the same and no module has
that of a keyword. -/
structure LegalNames (files : List FileDecl) : Prop where
  packages : ∀ f ∈ files, f.package.getD "" ≠ "" →
    ∀ part ∈ Text.split '.' (f.package.getD ""), IsPlain part
  names : ∀ s ∈ sites files, IsPlain s.name
  modules : ∀ f ∈ files, isKeyword (fileModule f) = false
  distinct : ((sites files).map Site.qualified).Nodup

namespace LegalNames

variable {files : List FileDecl}

theorem isPlain_module (hfiles : LegalNames files) (hf : f ∈ files)
    (hpackage : f.package.getD "" ≠ "") : IsPlain (fileModule f) := by
  cases hsome : f.package with
  | none =>
    rw [hsome] at hpackage
    exact absurd rfl hpackage
  | some package =>
    have hplain := isPlain_underscored (hfiles.packages f hf hpackage)
    rw [hsome, Option.getD_some] at hpackage hplain
    unfold fileModule
    rw [hsome]
    dsimp only
    rwa [if_pos (bne_iff_ne.2 hpackage)]

theorem isPlain_owners (hfiles : LegalNames files) (hs : s ∈ sites files) :
    ∀ owner ∈ s.owners, IsPlain owner := by
  obtain ⟨f, hf, hs⟩ := mem_sites.1 hs
  refine fileSites_induction (p := fun s => ∀ owner ∈ s.owners, IsPlain owner) ?_ ?_ s hs
  · intro s _ howners _
    rw [howners]
    exact fun _ howner => absurd howner List.not_mem_nil
  · intro s _ parent hparent hinside ih
    rw [hinside.owners, List.forall_mem_append, List.forall_mem_singleton]
    exact ⟨ih, hfiles.names parent (mem_sites.2 ⟨f, hf, hparent⟩)⟩

end LegalNames

/-! ### Paths of declared types -/

/-- The modules around the code of a declared type, from the root. -/
def Site.place (s : Site) : List String :=
  s.scope.module :: s.modules

theorem Site.notMem_bareKeywords_of_mem_path : ∀ segment ∈ s.info.path, segment ∉ bareKeywords := by
  rw [Site.info, List.forall_mem_append, List.forall_mem_singleton]
  refine ⟨fun segment hsegment => ?_, typeName_notMem_bareKeywords _⟩
  obtain ⟨owner, -, rfl⟩ := List.mem_map.1 hsegment
  exact fieldName_notMem_bareKeywords owner

section Resolve

variable {files : List FileDecl} {options : Options}

/-- A declared type is looked up, and the path is made of its segments. -/
theorem Registry.resolve_eq (hfiles : LegalNames files) {there : Site}
    (hthere : there ∈ sites files) (hlookup : options.externPaths.lookup there.qualified = none) :
    (Registry.ofFiles files).resolve options scope there.qualified =
      orFail (.illFormedCode (pathFault ("::".intercalate (there.info.segmentsFrom scope))))
        (Path.ofNames? (there.info.segmentsFrom scope)) := by
  have hfind := (Registry.find?_eq_some_iff hfiles.distinct).2 ⟨there, hthere, rfl, rfl⟩
  rw [Registry.resolve, hlookup, hfind]
  rfl

/-- What is declared nowhere has no path, unless one is configured. -/
theorem Registry.resolve_eq_unresolved {name : String}
    (hname : name ∉ (sites files).map Site.qualified)
    (hlookup : options.externPaths.lookup name = none) :
    (Registry.ofFiles files).resolve options scope name = fail (.unresolvedType name) := by
  rw [Registry.resolve, hlookup, Registry.find?_eq_none hname]
  rfl

variable {there : Site}

theorem LegalNames.isWord_segmentsFrom (hfiles : LegalNames files) (hthere : there ∈ sites files)
    (hmodule : there.scope.module = scope.module ∨ IsPlain there.scope.module) :
    ∀ segment ∈ there.info.segmentsFrom scope, IsWord segment := by
  refine (forall_mem_segmentsFrom (.inl (by decide))).2 ⟨hmodule.imp_right .inl, ?_⟩
  rw [Site.info, List.forall_mem_append, List.forall_mem_singleton]
  refine ⟨fun segment hsegment => ?_, isWord_typeName (hfiles.names there hthere)⟩
  obtain ⟨owner, howner, rfl⟩ := List.mem_map.1 hsegment
  exact isWord_fieldName (hfiles.isPlain_owners hthere owner howner)

/-- Which declared types have a path: none may be called by a word that cannot be escaped, nor be in
a module called `_`. -/
theorem LegalNames.forall_isLegal_iff (hfiles : LegalNames files) (hf : f ∈ files)
    (hthere : there ∈ fileSites f)
    (hmodule : there.scope.module = scope.module ∨ IsPlain there.scope.module) :
    (∀ segment ∈ there.info.segmentsFrom scope,
      isLegal segment = true ∧ isSegmentWord segment = true) ↔
      there.name ∉ unescapable ∧ "_" ∉ there.owners ∧
        (there.scope.module = scope.module ∨ there.scope.module ≠ "_") := by
  have hsites := mem_sites.2 ⟨f, hf, hthere⟩
  have howner : ∀ owner ∈ there.owners,
      (isLegal (moduleName owner) = true ∧ isSegmentWord (moduleName owner) = true ↔
        owner ≠ "_") := by
    intro owner howner
    have hplain := hfiles.isPlain_owners hsites owner howner
    rw [isSegmentWord_moduleName_iff hplain, moduleName]
    exact and_iff_right (isLegal_fieldName hplain)
  have howners : (∀ segment ∈ there.modules,
      isLegal segment = true ∧ isSegmentWord segment = true) ↔ "_" ∉ there.owners := by
    rw [Site.modules, List.forall_mem_map, forall₂_congr howner]
    exact ⟨fun h hmem => h _ hmem rfl, fun h owner howner heq => h (heq ▸ howner)⟩
  have hsegment : (there.scope.module = scope.module ∨ isLegal there.scope.module = true ∧
      isSegmentWord there.scope.module = true) ↔
      (there.scope.module = scope.module ∨ there.scope.module ≠ "_") := by
    rcases hmodule with hsame | hplain
    · exact iff_of_true (.inl hsame) (.inl hsame)
    · have hkeyword := hfiles.modules f hf
      rw [← (scope_of_mem_fileSites hthere).1] at hkeyword
      rw [isSegmentWord_iff hkeyword, isLegal_of_isPlain hplain]
      simp
  rw [forall_mem_segmentsFrom (by decide), Site.info, List.forall_mem_append,
    List.forall_mem_singleton, isSegment_typeName_iff (hfiles.names there hsites), howners,
    hsegment, and_comm, and_assoc, and_left_comm]

theorem LegalNames.resolve_eq_ok_iff (hfiles : LegalNames files) {f : FileDecl} (hf : f ∈ files)
    (hthere : there ∈ fileSites f)
    (hmodule : there.scope.module = scope.module ∨ IsPlain there.scope.module)
    (hlookup : options.externPaths.lookup there.qualified = none) {path : Path} :
    (Registry.ofFiles files).resolve options scope there.qualified = .ok path ↔
      (there.name ∉ unescapable ∧ "_" ∉ there.owners ∧
        (there.scope.module = scope.module ∨ there.scope.module ≠ "_")) ∧
      path = { rooted := false, segments := (there.info.segmentsFrom scope).map .name } := by
  have hsites := mem_sites.2 ⟨f, hf, hthere⟩
  have hne : there.info.segmentsFrom scope ≠ [] := by simp [TypeInfo.segmentsFrom, Site.info]
  rw [Registry.resolve_eq hfiles hsites hlookup, orFail_eq_ok_iff,
    Path.ofNames?_eq hne (hfiles.isWord_segmentsFrom hsites hmodule),
    ← hfiles.forall_isLegal_iff hf hthere hmodule]
  split
  · next hall => rw [and_iff_right hall, Option.some.injEq, eq_comm]
  · next hbad => exact iff_of_false (by simp) fun h => hbad h.1

end Resolve

/-! ### Definitions of gathered code -/

mutual

theorem definitions_below (above modules : List String) (item : Item) :
    definitions (above ++ modules) item = (definitions modules item).map fun definition =>
      (above ++ definition.1, definition.2) := by
  cases item with
  | struct attributes name fields => rfl
  | enum attributes name variants => rfl
  | implementation attributes interface type members => rfl
  | submodule name items =>
    rw [definitions, definitions, List.append_assoc]
    exact definitionsIn_below above (modules ++ [name]) items

theorem definitionsIn_below (above modules : List String) (items : List Item) :
    definitionsIn (above ++ modules) items = (definitionsIn modules items).map fun definition =>
      (above ++ definition.1, definition.2) := by
  cases items with
  | nil => rfl
  | cons item rest =>
    rw [definitionsIn, definitionsIn, List.map_append, definitions_below above modules item,
      definitionsIn_below above modules rest]

end

/-- The definitions of modules, each with the modules around it from the root. -/
def definitionsOf (modules : List (String × List Item)) : List (List String × Item) :=
  modules.flatMap fun entry => definitionsIn [entry.1] entry.2

/-- A definition is that of a type that one of the files declares: it is in the modules of the type,
has its name, and is part of its code. -/
structure IsDefinition (setting : Setting) (files : List FileDecl) (s : Site)
    (definition : List String × Item) : Prop where
  place : definition.1 = s.place
  name : definedName? definition.2 = some (typeName s.name)
  code : ∃ f ∈ files, s ∈ fileSites f ∧
    ∃ items, s.code setting f.isProto3 = .ok items ∧ definition.2 ∈ items

section Definitions

variable {setting : Setting} {files : List FileDecl} {modules : List (String × List Item)}

theorem forall₂_definitionsIn_fileItems {items : List Item} (hf : f ∈ files)
    (h : fileItems setting f = .ok items) :
    List.Forall₂ (IsDefinition setting files) (fileSites f)
      (definitionsIn [fileModule f] items) := by
  have hbelow := definitionsIn_below [fileModule f] [] items
  rw [List.append_nil] at hbelow
  rw [hbelow, List.forall₂_map_right_iff]
  refine ((List.forall₂_and_left _ _).2
    ⟨fun s (hs : s ∈ fileSites f) => hs, forall₂_definitions h⟩).imp ?_
  rintro s definition ⟨hs, hmodules, hname, items, hitems, hmem⟩
  refine ⟨?_, hname, f, hf, hs, items, hitems, hmem⟩
  rw [hmodules, Site.place, (scope_of_mem_fileSites hs).1]
  rfl

theorem forall₂_definitionsIn_flatten {module : String} {some : List FileDecl}
    (hsome : ∀ f ∈ some, f ∈ files ∧ fileModule f = module) {codes : List (List Item)}
    (h : List.Forall₂ (fun f items => fileItems setting f = .ok items) some codes) :
    List.Forall₂ (IsDefinition setting files) (sites some)
      (definitionsIn [module] codes.flatten) := by
  induction h with
  | nil => exact .nil
  | @cons f items rest codes hitems _ ih =>
    obtain ⟨⟨hf, rfl⟩, hrest⟩ := List.forall_mem_cons.1 hsome
    rw [List.flatten_cons, definitionsIn_append]
    exact List.rel_append (forall₂_definitionsIn_fileItems hf hitems) (ih hrest)

/-- A module has one definition for each type of its files, in order. -/
theorem Gathers.forall₂_definitionsIn (h : Gathers setting files modules) {module : String}
    {code : List Item} (hmem : (module, code) ∈ modules) :
    List.Forall₂ (IsDefinition setting files) (sites (files.filter (fileModule · == module)))
      (definitionsIn [module] code) := by
  obtain ⟨codes, hcodes, rfl⟩ := h.code module code hmem
  refine forall₂_definitionsIn_flatten (fun f hf => ?_) hcodes
  obtain ⟨hf, hmodule⟩ := List.mem_filter.1 hf
  exact ⟨hf, beq_iff_eq.1 hmodule⟩

theorem Gathers.exists_definition (h : Gathers setting files modules) (hs : s ∈ sites files) :
    ∃ definition ∈ definitionsOf modules, IsDefinition setting files s definition := by
  obtain ⟨f, hf, hs⟩ := mem_sites.1 hs
  obtain ⟨⟨module, code⟩, hentry, hmodule⟩ := List.mem_map.1 ((h.mem_iff _).2 ⟨f, hf, rfl⟩)
  have hmem : s ∈ sites (files.filter (fileModule · == module)) :=
    mem_sites.2 ⟨f, List.mem_filter.2 ⟨hf, beq_iff_eq.2 hmodule.symm⟩, hs⟩
  obtain ⟨definition, hdefinition, hof⟩ :=
    exists_of_forall₂ (h.forall₂_definitionsIn hentry) hmem
  exact ⟨definition, List.mem_flatMap.2 ⟨_, hentry, hdefinition⟩, hof⟩

end Definitions

/-- In files with legal names, the path of a declared type leads from the code of any type to the
module and name under which it is defined. It has a path unless a word on the way cannot be escaped.
What is declared nowhere has none. -/
theorem type_paths_lead_to_definitions {files : List FileDecl} (hfiles : LegalNames files)
    (options : Options) :
    (∀ name info, (Registry.ofFiles files).find? name = some info ↔
      ∃ s ∈ sites files, s.qualified = name ∧ s.info = info) ∧
    (∀ here ∈ sites files, ∀ f ∈ files, ∀ there ∈ fileSites f,
      (f.package.getD "" = "" → fileModule f = here.scope.module ∨ IsPlain (fileModule f)) →
      options.externPaths.lookup there.qualified = none →
      ((∃ path, (Registry.ofFiles files).resolve options here.scope there.qualified = .ok path) ↔
        there.name ∉ unescapable ∧ "_" ∉ there.owners ∧
          (there.scope.module = here.scope.module ∨ there.scope.module ≠ "_")) ∧
      ∀ path, (Registry.ofFiles files).resolve options here.scope there.qualified = .ok path →
        leadsTo? here.place path = some (there.place ++ [typeName there.name])) ∧
    (∀ only gathered, collectModules (Setting.ofFiles options files) []
        (files.filter (isSelected only)) = .ok gathered →
      ∀ s ∈ sites (files.filter (isSelected only)), ∃ definition ∈ definitionsOf gathered,
        IsDefinition (Setting.ofFiles options files) (files.filter (isSelected only)) s
          definition) ∧
    ∀ scope name, name ∉ (sites files).map Site.qualified →
      options.externPaths.lookup name = none →
      (Registry.ofFiles files).resolve options scope name = fail (.unresolvedType name) := by
  refine ⟨fun name info => Registry.find?_eq_some_iff hfiles.distinct, ?_, ?_, ?_⟩
  · intro here hhere f hf there hthere hstem hlookup
    obtain ⟨g, -, hhere⟩ := mem_sites.1 hhere
    have hsame := (scope_of_mem_fileSites hthere).1
    have hmodule : there.scope.module = here.scope.module ∨ IsPlain there.scope.module := by
      rw [hsame]
      by_cases hpackage : f.package.getD "" = ""
      · exact hstem hpackage
      · exact .inr (hfiles.isPlain_module hf hpackage)
    have hkeyword : there.scope.module ∉ bareKeywords := by
      have hkeywords : ∀ word ∈ bareKeywords, isKeyword word = true := by decide
      rw [hsame]
      exact fun hmem => Bool.false_ne_true ((hfiles.modules f hf).symm.trans (hkeywords _ hmem))
    have hresolve (path : Path) :=
      @LegalNames.resolve_eq_ok_iff _ _ _ _ hfiles _ hf hthere hmodule hlookup path
    refine ⟨?_, fun path hpath => ?_⟩
    · simp only [hresolve, exists_and_left, exists_eq, and_true]
    · rw [((hresolve path).1 hpath).2, leadsTo?, Path.names?_ofNames, Option.bind_some, Site.place,
        follow?_segmentsFrom (scope_of_mem_fileSites hhere).2
          Site.notMem_bareKeywords_of_mem_path hkeyword]
      rfl
  · intro only gathered hgathered s hs
    exact (gathers_collectModules hgathered).exists_definition hs
  · intro scope name hname hlookup
    exact Registry.resolve_eq_unresolved hname hlookup

/-- Two packages, each with a message inside another. -/
def crossedFiles : List FileDecl :=
  [{ package := some "a.b"
     messages := [{ name := some "HTTPServer", messages := [{ name := some "type" }] }] },
   { package := some "c"
     messages := [{ name := some "Use", messages := [{ name := some "Deep" }] }] }]

/-- The message inside the other one, in the first package. -/
def typeSite : Site :=
  ⟨(Scope.file "a_b" "a.b").nested "HTTPServer", ["HTTPServer"], "type",
    .message { name := some "type" }, rfl⟩

/-- The message inside the other one, in the second package. -/
def deepSite : Site :=
  ⟨(Scope.file "c" "c").nested "Use", ["Use"], "Deep", .message { name := some "Deep" }, rfl⟩

theorem type_paths_lead_to_definitions_crossed :
    LegalNames crossedFiles ∧
    ∃ path, (Registry.ofFiles crossedFiles).resolve {} deepSite.scope ".a.b.HTTPServer.type" =
        .ok path ∧
      leadsTo? ["c", "r#use"] path = some ["a_b", "http_server", "r#type"] := by
  have hfiles : LegalNames crossedFiles :=
    ⟨by decide +kernel, by decide +kernel, by decide +kernel, by decide +kernel⟩
  obtain ⟨-, hpaths, -⟩ := type_paths_lead_to_definitions hfiles {}
  have hhere : deepSite ∈ sites crossedFiles := .tail _ (.tail _ (.tail _ (.head _)))
  have hthere : typeSite ∈ fileSites (crossedFiles.head (by decide)) := .tail _ (.head _)
  obtain ⟨hsome, hleads⟩ := hpaths _ hhere _ (List.head_mem _) _ hthere (by decide) rfl
  have hname : typeSite.qualified = ".a.b.HTTPServer.type" := by decide +kernel
  have hplace : deepSite.place = ["c", "r#use"] := by decide +kernel
  have hgoal : typeSite.place ++ [typeName "type"] = ["a_b", "http_server", "r#type"] := by
    decide +kernel
  rw [hname] at hsome hleads
  obtain ⟨path, hpath⟩ := hsome.2 (by decide +kernel)
  refine ⟨hfiles, path, hpath, ?_⟩
  rw [← hplace, ← hgoal]
  exact hleads path hpath

end Generator

end ProtoWire
