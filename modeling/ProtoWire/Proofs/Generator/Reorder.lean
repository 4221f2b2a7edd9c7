import ProtoWire.Proofs.Generator.Declaration
import ProtoWire.Proofs.Generator.Place

/-!
# The order of files

The registry and the graph are made of all files, one file after the other, and code is gathered in
the order of the files. What is generated does not depend on that order, as long as the files of one
module keep theirs and no two types have one name.

* `Reordered`: files in another order, those of each module in the same one.
* `Setting.Agrees`, `Setting.agrees_ofFiles`: settings that give the same answers, and that those of
  reordered files do.
* `Gathers.eq_of_filter_eq`: what is gathered depends on the files of each module only.
* `Registry.resolve_eq_unresolved_iff`: only what is declared in no file is unresolved.
* `generation_independent_of_order`: so does all that is generated.
-/

namespace ProtoWire.Generator

open Code Relation

variable {setting : Setting} {files : List FileDecl}

/-- Where keys are distinct, the order of entries does not change what is found. -/
theorem lookup_reverse_of_perm {α : Type} {entries other : List (String × α)}
    (h : entries.Perm other) (hentries : (entries.map Prod.fst).Nodup) (key : String) :
    entries.reverse.lookup key = other.reverse.lookup key := by
  have hother : (other.map Prod.fst).Nodup := (h.map Prod.fst).nodup_iff.1 hentries
  refine Option.ext fun value => ?_
  rw [lookup_reverse_eq_some_iff hentries, lookup_reverse_eq_some_iff hother, h.mem_iff]

/-! ### Settings that give the same answers -/

/-- Two settings have the same options, find the same types, and box the same fields. -/
structure Setting.Agrees (setting other : Setting) : Prop where
  options : setting.options = other.options
  find? : ∀ name, setting.registry.find? name = other.registry.find? name
  isRecursive : ∀ message field,
    setting.graph.isRecursive message field = other.graph.isRecursive message field

theorem Registry.resolve_congr {registry other : Registry}
    (h : ∀ name, registry.find? name = other.find? name) (options : Options) (scope : Scope)
    (name : String) : registry.resolve options scope name = other.resolve options scope name := by
  unfold resolve
  rw [h]

theorem defaultValue?_congr {registry other : Registry}
    (h : ∀ name, registry.find? name = other.find? name) (f : FieldDecl) (category : Category) :
    defaultValue? registry f category = defaultValue? other f category := by
  have hvalues (name : String) : registry.enumValues? name = other.enumValues? name := by
    unfold Registry.enumValues?
    rw [h]
  have hdefault (text : String) :
      defaultOf? registry f category text = defaultOf? other f category text := by
    unfold defaultOf?
    rw [hvalues]
  unfold defaultValue?
  simp only [hdefault]

namespace Setting.Agrees

variable {other : Setting} (h : setting.Agrees other)

include h

theorem elementOf_eq (scope : Scope) (f : FieldDecl) (category : Category) :
    FieldPlan.elementOf setting scope f category = FieldPlan.elementOf other scope f category := by
  cases category with
  | scalar _ | text | blob => rfl
  | enum | message | group =>
    unfold FieldPlan.elementOf
    rw [h.options, Registry.resolve_congr h.find?]

theorem planField_eq (scope : Scope) (message : String) (f : FieldDecl) (strategy : Strategy)
    (bit : Option PresenceBit) (oneof : Option OneofNames) :
    FieldPlan.ofDecl setting scope message f strategy bit oneof =
      FieldPlan.ofDecl other scope message f strategy bit oneof := by
  unfold FieldPlan.ofDecl
  simp only [h.elementOf_eq, defaultValue?_congr h.find?, h.isRecursive, h.options]

theorem planFields_eq (scope : Scope) (message : String) (oneofs : List OneofPlan)
    (parts : List (FieldDecl × Strategy × Option PresenceBit)) :
    MessagePlan.planFields setting scope message oneofs parts =
      MessagePlan.planFields other scope message oneofs parts := by
  induction parts with
  | nil => rfl
  | cons part rest ih =>
    cases part
    rw [MessagePlan.planFields, MessagePlan.planFields, h.planField_eq, ih]

theorem planMessage_eq (scope : Scope) (isProto3 : Bool) (m : MessageDecl) :
    MessagePlan.ofDecl setting scope isProto3 m = MessagePlan.ofDecl other scope isProto3 m := by
  unfold MessagePlan.ofDecl
  simp only [h.planFields_eq, h.options]

end Setting.Agrees

mutual

theorem messageItems_congr {setting other : Setting} (h : setting.Agrees other) (scope : Scope)
    (isProto3 : Bool) (m : MessageDecl) :
    messageItems setting scope isProto3 m = messageItems other scope isProto3 m := by
  obtain ⟨_, _, messages, _, _, _⟩ := m
  rw [messageItems, messageItems, h.planMessage_eq]
  simp only [messagesItems_congr h _ isProto3 messages]

theorem messagesItems_congr {setting other : Setting} (h : setting.Agrees other) (scope : Scope)
    (isProto3 : Bool) (ms : List MessageDecl) :
    messagesItems setting scope isProto3 ms = messagesItems other scope isProto3 ms := by
  cases ms with
  | nil => rw [messagesItems, messagesItems]
  | cons m rest =>
    rw [messagesItems, messagesItems, messageItems_congr h scope isProto3 m,
      messagesItems_congr h scope isProto3 rest]

end

/-- Settings that give the same answers make the same code of a file. -/
theorem Setting.Agrees.fileItems_eq {other : Setting} (h : setting.Agrees other) (f : FileDecl) :
    fileItems setting f = fileItems other f := by
  rw [fileItems, fileItems, messagesItems_congr h]

/-! ### Settings of files in another order -/

mutual

theorem sublist_declarationsOf (scope : Scope) (owners : List String) (m : MessageDecl) :
    ((declarationsOf scope m).map Declaration.qualified).Sublist
      ((sitesOf scope owners m).map Site.qualified) := by
  obtain ⟨name, _, messages, _, _, _⟩ := m
  cases name with
  | none =>
    rw [declarationsOf]
    exact List.nil_sublist _
  | some name =>
    rw [declarationsOf, sitesOf, List.map_cons, List.map_cons, List.map_append]
    exact ((sublist_declarationsIn _ _ messages).trans (List.sublist_append_right _ _)).cons_cons _

theorem sublist_declarationsIn (scope : Scope) (owners : List String) (ms : List MessageDecl) :
    ((declarationsIn scope ms).map Declaration.qualified).Sublist
      ((sitesIn scope owners ms).map Site.qualified) := by
  cases ms with
  | nil =>
    rw [declarationsIn]
    exact List.nil_sublist _
  | cons m rest =>
    rw [declarationsIn, sitesIn, List.map_append, List.map_append]
    exact (sublist_declarationsOf scope owners m).append (sublist_declarationsIn scope owners rest)

end

theorem sublist_declarations (files : List FileDecl) :
    ((declarations files).map Declaration.qualified).Sublist
      ((sites files).map Site.qualified) := by
  induction files with
  | nil => exact .slnil
  | cons f rest ih =>
    rw [declarations, sites, List.flatMap_cons, List.flatMap_cons, List.map_append,
      List.map_append]
    refine List.Sublist.append ?_ ih
    rw [fileDeclarations, fileSites, List.map_append]
    exact (sublist_declarationsIn _ [] f.messages).trans (List.sublist_append_right _ _)

section Files

variable {other : List FileDecl} (h : files.Perm other)
  (hfiles : ((sites files).map Site.qualified).Nodup)

include h hfiles

theorem Registry.find?_of_perm (name : String) :
    (ofFiles files).find? name = (ofFiles other).find? name := by
  have hkeys : ((ofFiles files).map Prod.fst).Nodup := by
    rw [((perm_ofFiles files).map Prod.fst).nodup_iff, List.map_map]
    exact hfiles
  exact lookup_reverse_of_perm (h.flatMap_right _) hkeys name

namespace InlineGraph

theorem edges_of_perm (message : String) :
    (ofFiles files).edges message = (ofFiles other).edges message := by
  have hkeys : (((declarations files).map Declaration.inlineEntry).map Prod.fst).Nodup := by
    rw [List.map_map]
    exact hfiles.sublist (sublist_declarations files)
  have hperm : (declarations files).Perm (declarations other) := h.flatMap_right _
  rw [edges, edges, ofFiles_eq, ofFiles_eq,
    lookup_reverse_of_perm (hperm.map Declaration.inlineEntry) hkeys]

theorem reaches_of_perm (start goal : String) :
    (ofFiles files).reaches start goal = (ofFiles other).reaches start goal := by
  have hcontains : (ofFiles files).Contains = (ofFiles other).Contains := by
    funext outer inner
    rw [Contains, Contains, edges_of_perm h hfiles]
  rw [Bool.eq_iff_iff, reaches_iff, reaches_iff, hcontains]

theorem isRecursive_of_perm (message field : String) :
    (ofFiles files).isRecursive message field = (ofFiles other).isRecursive message field := by
  rw [isRecursive, isRecursive, edges_of_perm h hfiles]
  simp only [reaches_of_perm h hfiles]

end InlineGraph

/-- The order of files does not change what a setting answers. -/
theorem Setting.agrees_ofFiles (options : Options) :
    (Setting.ofFiles options files).Agrees (Setting.ofFiles options other) where
  options := rfl
  find? := Registry.find?_of_perm h hfiles
  isRecursive := InlineGraph.isRecursive_of_perm h hfiles

end Files

/-! ### Code gathered in another order -/

section Gathered

variable {other : List FileDecl} {modules modules' : List (String × List Item)}

theorem eq_of_sorted {α : Type} {entries entries' : List (String × α)}
    (h : (entries.map Prod.fst).Pairwise (· < ·)) (h' : (entries'.map Prod.fst).Pairwise (· < ·))
    (hmem : ∀ entry, entry ∈ entries ↔ entry ∈ entries') : entries = entries' := by
  have hnodup {entries : List (String × α)} (h : (entries.map Prod.fst).Pairwise (· < ·)) :
      entries.Nodup := by
    refine (List.pairwise_map.1 h).imp ?_
    rintro entry _ hlt rfl
    exact String.lt_irrefl _ hlt
  refine List.Perm.eq_of_pairwise ?_ (List.pairwise_map.1 h) (List.pairwise_map.1 h')
    ((List.perm_ext_iff_of_nodup (hnodup h) (hnodup h')).2 hmem)
  exact fun a b _ _ hlt hgt => absurd (String.lt_trans hlt hgt) (String.lt_irrefl _)

theorem Gathers.mem_of_filter_eq (h : Gathers setting files modules)
    (h' : Gathers setting other modules')
    (hfiles : ∀ module, files.filter (fileModule · == module) =
      other.filter (fileModule · == module)) {entry : String × List Item}
    (hentry : entry ∈ modules) : entry ∈ modules' := by
  obtain ⟨module, code⟩ := entry
  obtain ⟨codes, hcodes, rfl⟩ := h.code module code hentry
  obtain ⟨f, hf, hmodule⟩ := (h.mem_iff module).1 (List.mem_map_of_mem hentry)
  have hf' : f ∈ other.filter (fileModule · == module) := by
    rw [← hfiles]
    exact List.mem_filter.2 ⟨hf, beq_iff_eq.2 hmodule⟩
  obtain ⟨⟨_, code'⟩, hentry', rfl⟩ :=
    List.mem_map.1 ((h'.mem_iff module).2 ⟨f, (List.mem_filter.1 hf').1, hmodule⟩)
  obtain ⟨codes', hcodes', rfl⟩ := h'.code _ code' hentry'
  rw [hfiles] at hcodes
  have hsame : codes = codes' := List.right_unique_forall₂'
    (fun _ _ _ hx hy => Except.ok.inj (hx.symm.trans hy)) hcodes hcodes'
  rwa [hsame]

theorem Gathers.eq_of_filter_eq (h : Gathers setting files modules)
    (h' : Gathers setting other modules')
    (hfiles : ∀ module, files.filter (fileModule · == module) =
      other.filter (fileModule · == module)) : modules = modules' :=
  eq_of_sorted h.sorted h'.sorted fun _ =>
    ⟨h.mem_of_filter_eq h' hfiles, h'.mem_of_filter_eq h fun module => (hfiles module).symm⟩

theorem exists_collectModules_iff :
    (∃ gathered, collectModules setting modules files = .ok gathered) ↔
      ∀ f ∈ files, ∃ items, fileItems setting f = .ok items := by
  induction files generalizing modules with
  | nil => simp [collectModules]
  | cons f rest ih =>
    rw [List.forall_mem_cons, collectModules]
    constructor
    · rintro ⟨gathered, h⟩
      obtain ⟨items, hitems, h⟩ := bind_eq_ok_iff.1 h
      exact ⟨⟨items, hitems⟩, ih.1 ⟨gathered, h⟩⟩
    · rintro ⟨⟨items, hitems⟩, hrest⟩
      rw [hitems]
      exact ih.2 hrest

end Gathered

/-! ### Files in another order -/

/-- The same files in another order, those of each module in the same one. -/
structure Reordered (files other : List FileDecl) : Prop where
  perm : files.Perm other
  filter_eq : ∀ module, files.filter (fileModule · == module) =
    other.filter (fileModule · == module)

namespace Reordered

variable {other : List FileDecl}

theorem symm (h : Reordered files other) : Reordered other files :=
  ⟨h.perm.symm, fun module => (h.filter_eq module).symm⟩

theorem filter (h : Reordered files other) (p : FileDecl → Bool) :
    Reordered (files.filter p) (other.filter p) where
  perm := h.perm.filter p
  filter_eq module := by
    rw [List.filter_comm, h.filter_eq, List.filter_comm]

/-- Neighbours of different modules may change places. -/
theorem swap {f g : FileDecl} (hne : fileModule f ≠ fileModule g) (rest : List FileDecl) :
    Reordered (f :: g :: rest) (g :: f :: rest) where
  perm := .swap g f rest
  filter_eq module := by
    by_cases hf : fileModule f = module
    · have hg : fileModule g ≠ module := fun h => hne (hf.trans h.symm)
      simp [hf, hg]
    · simp [List.filter_cons, hf]

theorem nodup_sites (h : Reordered files other)
    (hfiles : ((sites files).map Site.qualified).Nodup) :
    ((sites other).map Site.qualified).Nodup :=
  ((h.perm.flatMap_right _).map _).nodup_iff.1 hfiles

theorem collectModules_eq_ok {setting' : Setting} (h : Reordered files other)
    (hsetting : setting.Agrees setting') {modules : List (String × List Item)}
    (hmodules : collectModules setting [] files = .ok modules) :
    collectModules setting' [] other = .ok modules := by
  have hitems : ∀ f ∈ other, ∃ items, fileItems setting' f = .ok items := by
    intro f hf
    rw [← hsetting.fileItems_eq]
    exact exists_collectModules_iff.1 ⟨modules, hmodules⟩ f (h.perm.mem_iff.2 hf)
  obtain ⟨modules', hmodules'⟩ := exists_collectModules_iff.2 hitems
  have hgathers : Gathers setting' files modules := by
    obtain ⟨hsorted, hmem, hcode⟩ := gathers_collectModules hmodules
    exact ⟨hsorted, hmem, by simpa only [hsetting.fileItems_eq] using hcode⟩
  rw [hgathers.eq_of_filter_eq (gathers_collectModules hmodules') h.filter_eq, hmodules']

theorem generateFiles_eq_ok {render : Renderer} {options : Options} {only : Option (List String)}
    (h : Reordered files other) (hfiles : ((sites files).map Site.qualified).Nodup)
    {out : List GeneratedFile} (hout : generateFiles options files only render = .ok out) :
    generateFiles options other only render = .ok out := by
  rw [generateFiles] at hout ⊢
  obtain ⟨modules, hmodules, hout⟩ := bind_eq_ok_iff.1 hout
  have hsetting := Setting.agrees_ofFiles h.perm hfiles options
  exact bind_eq_ok_iff.2 ⟨modules, (h.filter _).collectModules_eq_ok hsetting hmodules, hout⟩

end Reordered

/-- Only what is declared in no file, and has no configured path, is unresolved. -/
theorem Registry.resolve_eq_unresolved_iff (hfiles : ((sites files).map Site.qualified).Nodup)
    {options : Options} {scope : Scope} {name : String} :
    (Registry.ofFiles files).resolve options scope name = fail (.unresolvedType name) ↔
      options.externPaths.lookup name = none ∧ name ∉ (sites files).map Site.qualified := by
  refine ⟨fun h => ?_, fun h => Registry.resolve_eq_unresolved h.2 h.1⟩
  have hother {α : Type} {reason : String} {found : Option α} :
      orFail (.illFormedCode reason) found ≠ fail (.unresolvedType name) := by
    cases found <;> simp [orFail, fail]
  rw [Registry.resolve] at h
  cases hlookup : options.externPaths.lookup name with
  | some text =>
    rw [hlookup] at h
    exact absurd h hother
  | none =>
    refine ⟨rfl, fun hname => ?_⟩
    obtain ⟨s, hs, rfl⟩ := List.mem_map.1 hname
    rw [hlookup, (Registry.find?_eq_some_iff hfiles).2 ⟨s, hs, rfl, rfl⟩] at h
    exact absurd h hother

/-- If no two types have one name, files in another order are generated exactly if they are in this
one, and to the same names and contents, however code becomes text. Each type is found wherever its
file stands, and has the same path from any place. -/
theorem generation_independent_of_order {files other : List FileDecl} (h : Reordered files other)
    (hfiles : ((sites files).map Site.qualified).Nodup) (options : Options)
    (only : Option (List String)) :
    (∀ render out, generateFiles options files only render = .ok out ↔
      generateFiles options other only render = .ok out) ∧
    (∀ s ∈ sites files, (Registry.ofFiles files).find? s.qualified = some s.info ∧
      (Registry.ofFiles other).find? s.qualified = some s.info) ∧
    ∀ scope name,
      (Registry.ofFiles files).resolve options scope name =
        (Registry.ofFiles other).resolve options scope name ∧
      ((Registry.ofFiles other).resolve options scope name = fail (.unresolvedType name) ↔
        options.externPaths.lookup name = none ∧ name ∉ (sites files).map Site.qualified) := by
  have hfind := Registry.find?_of_perm h.perm hfiles
  refine ⟨fun render out => ?_, fun s hs => ?_, fun scope name => ?_⟩
  · exact ⟨h.generateFiles_eq_ok hfiles, h.symm.generateFiles_eq_ok (h.nodup_sites hfiles)⟩
  · rw [← hfind]
    have hfound := (Registry.find?_eq_some_iff hfiles).2 ⟨s, hs, rfl, rfl⟩
    exact ⟨hfound, hfound⟩
  · have hresolve := Registry.resolve_congr hfind options scope name
    refine ⟨hresolve, ?_⟩
    rw [← hresolve]
    exact Registry.resolve_eq_unresolved_iff hfiles

/-- A file with a message that has a field of an enum. -/
def userFile : FileDecl :=
  { name := some "user.proto", package := some "a"
    messages := [{ name := some "User", fields := [{ name := some "level", number := some 1
                                                     label := some 1, type := some 14
                                                     typeName := some ".b.c.Low" }] }] }

/-- The file of the enum may come after the one that uses it, or before. -/
theorem generation_independent_of_order_user :
    ∃ out, generateFiles { skipFormat := true } (userFile :: sharedPackage) none = .ok out ∧
      generateFiles { skipFormat := true } (sharedPackage.take 1 ++ userFile :: sharedPackage.drop 1)
        none = .ok out ∧
      out.map (·.name) = ["a.rs", "b_c.rs", "mod.rs"] := by
  have hne : fileModule userFile ≠
      fileModule (enumFile "low.proto" "b.c" (loneEnum "Low" "A")) := by decide +kernel
  have hnames : (generateFiles { skipFormat := true } (userFile :: sharedPackage)
      none).toOption.map (·.map (·.name)) = some ["a.rs", "b_c.rs", "mod.rs"] := by decide +kernel
  cases hout : generateFiles { skipFormat := true } (userFile :: sharedPackage) none with
  | error failure =>
    rw [hout] at hnames
    cases hnames
  | ok out =>
    rw [hout] at hnames
    have hsame := generation_independent_of_order (Reordered.swap hne (sharedPackage.drop 1))
      (by decide +kernel) { skipFormat := true } none
    exact ⟨out, rfl, (hsame.1 _ out).1 hout, Option.some.inj hnames⟩

end ProtoWire.Generator
