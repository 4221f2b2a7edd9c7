import ProtoWire.Proofs.Generator.Place

/-!
# Types that stay apart

Names are changed on their way into code: the dots of a package become underscores, and the module
of a message has its name in small letters. Both may make one of two. Where they do not, no two
declared types have one path.
-/

namespace ProtoWire.Generator

open Code Source

/-- Files in which no two names become one: those of a module are of one package, messages with
types inside that are declared side by side have different modules, and no name is escaped
already. -/
structure KeptApart (files : List FileDecl) : Prop where
  packages : ∀ f ∈ files, ∀ g ∈ files, fileModule f = fileModule g →
    f.package.getD "" = g.package.getD ""
  modules : ∀ s ∈ sites files, ∀ t ∈ sites files, s.scope = t.scope → s.decl.hasTypes = true →
    t.decl.hasTypes = true → moduleName s.name = moduleName t.name → s.name = t.name
  names : ∀ s ∈ sites files, ¬ ['r', '#'] <+: s.name.toList
  distinct : ((sites files).map Site.qualified).Nodup

/-! ### Names and scopes -/

theorem typeName_inj {name other : String} (hname : ¬ ['r', '#'] <+: name.toList)
    (hother : ¬ ['r', '#'] <+: other.toList) (h : typeName name = typeName other) :
    name = other := by
  have hescaped (word : String) : ['r', '#'] <+: ("r#" ++ word).toList := by
    rw [toList_escaped]
    exact ⟨word.toList, rfl⟩
  unfold typeName at h
  split at h
  · split at h
    · have hchars := congrArg String.toList h
      rw [toList_escaped, toList_escaped] at hchars
      exact String.toList_inj.1 (List.cons.inj (List.cons.inj hchars).2).2
    · exact absurd (h ▸ hescaped name) hother
  · split at h
    · exact absurd (h ▸ hescaped other) hname
    · exact h

section Files

variable {files : List FileDecl}

theorem KeptApart.scope_ofFile_eq (h : KeptApart files) {f g : FileDecl} (hf : f ∈ files)
    (hg : g ∈ files) (hmodule : fileModule f = fileModule g) :
    Scope.ofFile f = Scope.ofFile g := by
  rw [Scope.ofFile, Scope.ofFile, hmodule, h.packages f hf g hg hmodule]

/-- The messages around two types are the same if their modules are, level by level. -/
theorem KeptApart.scope_eq_of_modules_eq (h : KeptApart files) {f g : FileDecl} (hf : f ∈ files)
    (hg : g ∈ files) (hmodule : fileModule f = fileModule g) :
    ∀ s ∈ fileSites f, ∀ t ∈ fileSites g, s.modules = t.modules → s.scope = t.scope := by
  apply fileSites_induction
  · intro s _ howners hscope t ht hmodules
    rcases hasPlace_of_mem_fileSites ht with ⟨-, hscope'⟩ | ⟨parent, -, hinside⟩
    · rw [hscope, hscope', h.scope_ofFile_eq hf hg hmodule]
    · simp [Site.modules, howners, hinside.owners] at hmodules
  · intro s _ parent hparent hinside ih t ht hmodules
    rcases hasPlace_of_mem_fileSites ht with ⟨howners, -⟩ | ⟨parent', hparent', hinside'⟩
    · simp [Site.modules, howners, hinside.owners] at hmodules
    · rw [hinside.modules_eq, hinside'.modules_eq] at hmodules
      -- The messages around are in one scope and have modules of one name, so they are one.
      obtain ⟨houter, hlast⟩ := List.append_singleton_inj.1 hmodules
      have hscope := ih parent' hparent' houter
      have hname := h.modules parent (mem_sites.2 ⟨f, hf, hparent⟩) parent'
        (mem_sites.2 ⟨g, hg, hparent'⟩) hscope hinside.hasTypes hinside'.hasTypes hlast
      rw [hinside.scope, hinside'.scope, hscope, hname]

theorem KeptApart.qualified_eq (h : KeptApart files) {s t : Site} (hs : s ∈ sites files)
    (ht : t ∈ sites files) (hmodule : s.info.module = t.info.module)
    (hpath : s.info.path = t.info.path) : s.qualified = t.qualified := by
  obtain ⟨f, hf, hsf⟩ := mem_sites.1 hs
  obtain ⟨g, hg, htg⟩ := mem_sites.1 ht
  obtain ⟨hmodules, hlast⟩ := List.append_singleton_inj.1 hpath
  have hsame : fileModule f = fileModule g := by
    rw [← (scope_of_mem_fileSites hsf).1, ← (scope_of_mem_fileSites htg).1]
    exact hmodule
  have hname := typeName_inj (h.names s hs) (h.names t ht) hlast
  rw [Site.qualified, h.scope_eq_of_modules_eq hf hg hsame s hsf t htg hmodules, hname]
  rfl

theorem KeptApart.nodup_sites (h : KeptApart files) :
    ((sites files).map fun s => (s.info.module, s.info.path)).Nodup := by
  have hdistinct := h.distinct
  rw [List.Nodup, List.pairwise_map] at hdistinct ⊢
  refine hdistinct.imp_of_mem fun {s t} hs ht hne heq => hne ?_
  obtain ⟨hmodule, hpath⟩ := Prod.mk.inj heq
  exact h.qualified_eq hs ht hmodule hpath

end Files

/-! ### References and definitions -/

theorem segmentsFrom_inj {info other : TypeInfo} {scope : Scope}
    (hinfo : ∀ segment ∈ info.path, segment ∉ bareKeywords)
    (hother : ∀ segment ∈ other.path, segment ∉ bareKeywords)
    (h : info.segmentsFrom scope = other.segmentsFrom scope) :
    info.module = other.module ∧ info.path = other.path := by
  have hsuper : "super" ∈ bareKeywords := by decide
  rw [TypeInfo.segmentsFrom, TypeInfo.segmentsFrom, List.append_assoc, List.append_assoc] at h
  replace h := List.append_cancel_left h
  split at h
  · next hhere =>
    split at h
    · next hthere => exact ⟨(beq_iff_eq.1 hhere).trans (beq_iff_eq.1 hthere).symm, h⟩
    · rw [List.nil_append] at h
      exact absurd hsuper (hinfo _ (h ▸ List.mem_cons_self))
  · split at h
    · rw [List.nil_append] at h
      exact absurd hsuper (hother _ (h ▸ List.mem_cons_self))
    · obtain ⟨-, h⟩ := List.cons.inj h
      exact List.cons.inj h

section Definitions

variable {files : List FileDecl} {setting : Setting} {modules : List (String × List Item)}

/-- The place and name under which a declared type is to be defined. -/
def Site.target (s : Site) : List String × Option String :=
  (s.place, some (typeName s.name))

theorem map_definitions_eq {found : List Site} {definitions : List (List String × Item)}
    (h : List.Forall₂ (IsDefinition setting files) found definitions) :
    definitions.map (fun definition => (definition.1, definedName? definition.2)) =
      found.map Site.target := by
  induction h with
  | nil => rfl
  | cons hfirst _ ih =>
    rw [List.map_cons, List.map_cons, hfirst.place, hfirst.name, ih]
    rfl

theorem nodup_targets {found : List Site}
    (h : (found.map fun s => (s.info.module, s.info.path)).Nodup) :
    (found.map Site.target).Nodup := by
  rw [List.Nodup, List.pairwise_map] at h ⊢
  refine h.imp fun {s t} hne heq => hne ?_
  obtain ⟨hplace, hname⟩ := Prod.mk.inj heq
  obtain ⟨hmodule, hmodules⟩ := List.cons.inj hplace
  simp only [Site.info, hmodule, hmodules, Option.some.inj hname]

theorem head?_of_mem_targets {module : String} {target : List String × Option String}
    (h : target ∈ (sites (files.filter (fileModule · == module))).map Site.target) :
    target.1.head? = some module := by
  obtain ⟨s, hs, rfl⟩ := List.mem_map.1 h
  obtain ⟨f, hf, hs⟩ := mem_sites.1 hs
  have hmodule := beq_iff_eq.1 (List.mem_filter.1 hf).2
  rw [← hmodule, ← (scope_of_mem_fileSites hs).1]
  rfl

/-- If no two types of files have one path, then no two definitions in the modules that gather them
have one. -/
theorem Gathers.nodup_definitions (h : Gathers setting files modules)
    (hfiles : ((sites files).map fun s => (s.info.module, s.info.path)).Nodup) :
    ((definitionsOf modules).map fun definition =>
      (definition.1, definedName? definition.2)).Nodup := by
  have htargets : ∀ entry ∈ modules, (definitionsIn [entry.1] entry.2).map
      (fun definition => (definition.1, definedName? definition.2)) =
        (sites (files.filter (fileModule · == entry.1))).map Site.target :=
    fun entry hentry => map_definitions_eq (h.forall₂_definitionsIn hentry)
  rw [definitionsOf, List.map_flatMap, List.nodup_flatMap]
  constructor
  · intro entry hentry
    rw [htargets entry hentry]
    exact nodup_targets (hfiles.sublist ((List.filter_sublist.flatMap _).map _))
  · -- Definitions of different modules differ in the first module around them.
    have hsorted := h.sorted
    rw [List.pairwise_map] at hsorted
    refine hsorted.imp_of_mem fun {entry other} hentry hother hlt target htarget htarget' => ?_
    dsimp only at htarget htarget'
    rw [htargets entry hentry] at htarget
    rw [htargets other hother] at htarget'
    have hsame := (head?_of_mem_targets htarget).symm.trans (head?_of_mem_targets htarget')
    exact String.lt_irrefl _ (Option.some.inj hsame ▸ hlt)

end Definitions

/-- Where no two names become one, each declared type has a path of its own in the registry, each
definition in generated code has one, and no two types are referred to alike. -/
theorem types_kept_apart {files : List FileDecl} (hfiles : KeptApart files) :
    ((Registry.ofFiles files).map fun entry => (entry.2.module, entry.2.path)).Nodup ∧
    (∀ options only gathered, collectModules (Setting.ofFiles options files) []
        (files.filter (isSelected only)) = .ok gathered →
      ((definitionsOf gathered).map fun definition =>
        (definition.1, definedName? definition.2)).Nodup) ∧
    ∀ scope name other info info', (Registry.ofFiles files).find? name = some info →
      (Registry.ofFiles files).find? other = some info' →
      info.segmentsFrom scope = info'.segmentsFrom scope → name = other := by
  have hnodup := hfiles.nodup_sites
  refine ⟨?_, fun options only gathered hgathered => ?_, ?_⟩
  · rw [((Registry.perm_ofFiles files).map _).nodup_iff, List.map_map]
    exact hnodup
  · exact (gathers_collectModules hgathered).nodup_definitions
      (hnodup.sublist ((List.filter_sublist.flatMap _).map _))
  · intro scope name other info info' hinfo hinfo' hsegments
    obtain ⟨s, hs, rfl, rfl⟩ := (Registry.find?_eq_some_iff hfiles.distinct).1 hinfo
    obtain ⟨t, ht, rfl, rfl⟩ := (Registry.find?_eq_some_iff hfiles.distinct).1 hinfo'
    obtain ⟨hmodule, hpath⟩ := segmentsFrom_inj Site.notMem_bareKeywords_of_mem_path
      Site.notMem_bareKeywords_of_mem_path hsegments
    exact hfiles.qualified_eq hs ht hmodule hpath

/-- Messages of two packages with types of the same names inside. -/
def twinFiles : List FileDecl :=
  [{ package := some "a", messages := [
      { name := some "Outer", messages := [{ name := some "Type" }] },
      { name := some "Other", messages := [{ name := some "Type" }] }] },
   { package := some "b", messages := [
      { name := some "Outer", messages := [{ name := some "Type" }] }] }]

theorem types_kept_apart_twins :
    KeptApart twinFiles ∧
    ((Registry.ofFiles twinFiles).map fun entry => (entry.2.module, entry.2.path)).Nodup := by
  have hfiles : KeptApart twinFiles :=
    ⟨by decide +kernel, by decide +kernel, by decide +kernel, by decide +kernel⟩
  exact ⟨hfiles, (types_kept_apart hfiles).1⟩

/-- Two packages that differ in a dot. -/
def dottedFiles : List FileDecl :=
  [enumFile "dot.proto" "a.b" (loneEnum "Kind" "A"),
   enumFile "line.proto" "a_b" (loneEnum "Kind" "A")]

/-- Two messages that differ in their letter case, with an enum in each. -/
def casedFiles : List FileDecl :=
  [{ package := some "a", messages := [
      { name := some "FooBar", enums := [loneEnum "Kind" "A"] },
      { name := some "foo_bar", enums := [loneEnum "Kind" "B"] }] }]

/-- Types of different names that become one. -/
theorem types_share_a_path :
    (((sites dottedFiles).map Site.qualified).Nodup ∧
      (generateFiles { skipFormat := true } dottedFiles none).toOption.isSome = true ∧
      (Registry.ofFiles dottedFiles).map (fun entry => (entry.1, entry.2.module, entry.2.path)) =
        [(".a.b.Kind", "a_b", ["Kind"]), (".a_b.Kind", "a_b", ["Kind"])]) ∧
    ((sites casedFiles).map Site.qualified).Nodup ∧
    (generateFiles { skipFormat := true } casedFiles none).toOption.isSome = true ∧
    (Registry.ofFiles casedFiles).map (fun entry => (entry.1, entry.2.module, entry.2.path)) =
      [(".a.FooBar", "a", ["FooBar"]), (".a.FooBar.Kind", "a", ["foo_bar", "Kind"]),
       (".a.foo_bar", "a", ["foo_bar"]), (".a.foo_bar.Kind", "a", ["foo_bar", "Kind"])] := by
  decide +kernel

end ProtoWire.Generator
