import Mathlib.Data.List.Nodup
import Mathlib.Tactic.Tauto
import ProtoWire.Generator.Compile
import ProtoWire.Generator.Plugin
import ProtoWire.Proofs.Generator.Plan

/-!
# Code gathered in modules

The code of schema files is gathered in modules, as their packages say. Each module becomes a file,
and one more file declares them all. It is called `mod.rs`, and so is the file of a module `mod`.
-/

namespace ProtoWire.Generator

open Code

variable {modules : List (String × List Item)}

/-- Modules hold the code of files: they are in the order of their names, each is the module of a
file, and it has the code of its files one after the other. -/
structure Gathers (setting : Setting) (files : List FileDecl)
    (modules : List (String × List Item)) : Prop where
  sorted : (modules.map Prod.fst).Pairwise (· < ·)
  mem_iff : ∀ module, module ∈ modules.map Prod.fst ↔ ∃ f ∈ files, fileModule f = module
  code : ∀ module code, (module, code) ∈ modules → ∃ codes,
    List.Forall₂ (fun f items => fileItems setting f = .ok items)
      (files.filter (fileModule · == module)) codes ∧ code = codes.flatten

/-! ### One file -/

section AddToModule

variable {module : String} {items : List Item}

theorem mem_keys_addToModule {name : String} :
    name ∈ (addToModule module items modules).map Prod.fst ↔
      name = module ∨ name ∈ modules.map Prod.fst := by
  induction modules with
  | nil => simp [addToModule]
  | cons entry rest ih =>
    cases entry
    rw [addToModule]
    split
    · simp
    · split
      · next heq => simp [heq]
      · simp only [List.map_cons, List.mem_cons, ih]
        tauto

theorem sorted_addToModule (h : (modules.map Prod.fst).Pairwise (· < ·)) :
    ((addToModule module items modules).map Prod.fst).Pairwise (· < ·) := by
  induction modules with
  | nil => simp [addToModule]
  | cons entry rest ih =>
    cases entry
    obtain ⟨hkey, hrest⟩ := List.pairwise_cons.1 h
    rw [addToModule]
    split
    · next hlt =>
      refine List.pairwise_cons.2 ⟨fun name hname => ?_, h⟩
      rcases List.mem_cons.1 hname with rfl | hname
      · exact hlt
      · exact String.lt_trans hlt (hkey name hname)
    · next hlt =>
      split
      · exact h
      · next hne =>
        refine List.pairwise_cons.2 ⟨fun name hname => ?_, ih hrest⟩
        rcases mem_keys_addToModule.1 hname with rfl | hname
        · exact Std.lt_of_le_of_ne (String.not_lt.1 hlt) (Ne.symm hne)
        · exact hkey name hname

/-- Code is added behind what its module has, or is the first of it. No other module changes. -/
theorem mem_addToModule (h : (modules.map Prod.fst).Pairwise (· < ·)) {name : String}
    {code : List Item} (hmem : (name, code) ∈ addToModule module items modules) :
    (name ≠ module ∧ (name, code) ∈ modules) ∨
      (name = module ∧ ∃ present, code = present ++ items ∧ ((name, present) ∈ modules ∨
        present = [] ∧ name ∉ modules.map Prod.fst)) := by
  induction modules with
  | nil =>
    rw [addToModule, List.mem_singleton, Prod.mk.injEq] at hmem
    exact .inr ⟨hmem.1, [], hmem.2, .inr ⟨rfl, List.not_mem_nil⟩⟩
  | cons entry rest ih =>
    obtain ⟨key, present⟩ := entry
    obtain ⟨hkey, hrest⟩ := List.pairwise_cons.1 h
    -- The keys behind `key` are larger, so none of them is the module once `key` is not smaller.
    have habsent (hle : ¬ key < module) : module ∉ rest.map Prod.fst :=
      fun hin => hle (hkey module hin)
    rw [addToModule] at hmem
    split at hmem
    · next hlt =>
      have hne : key ≠ module := fun heq => String.lt_irrefl _ (heq ▸ hlt)
      have hle : ¬ key < module := fun hgt => String.lt_irrefl _ (String.lt_trans hlt hgt)
      rcases List.mem_cons.1 hmem with heq | hin
      · cases heq
        exact .inr ⟨rfl, [], rfl, .inr ⟨rfl, by simp [hne.symm, habsent hle]⟩⟩
      · refine .inl ⟨?_, hin⟩
        rintro rfl
        rcases List.mem_cons.1 hin with heq | hin
        · exact hne (congrArg Prod.fst heq).symm
        · exact habsent hle (List.mem_map_of_mem hin)
    · split at hmem
      · next heq =>
        subst heq
        rcases List.mem_cons.1 hmem with heq | hin
        · cases heq
          exact .inr ⟨rfl, present, rfl, .inl List.mem_cons_self⟩
        · refine .inl ⟨?_, List.mem_cons_of_mem _ hin⟩
          rintro rfl
          exact habsent (String.lt_irrefl _) (List.mem_map_of_mem hin)
      · next hne =>
        rcases List.mem_cons.1 hmem with heq | hmem
        · cases heq
          exact .inl ⟨Ne.symm hne, List.mem_cons_self⟩
        · rcases ih hrest hmem with ⟨hother, hin⟩ | ⟨rfl, before, rfl, hbefore⟩
          · exact .inl ⟨hother, List.mem_cons_of_mem _ hin⟩
          · refine .inr ⟨rfl, before, rfl, ?_⟩
            exact hbefore.imp (List.mem_cons_of_mem _) fun ⟨hempty, hnone⟩ =>
              ⟨hempty, by simp [hne, hnone]⟩

end AddToModule

section Gathers

variable {setting : Setting} {files : List FileDecl}

theorem gathers_nil : Gathers setting [] [] where
  sorted := .nil
  mem_iff := by simp
  code := by simp

theorem Gathers.add (h : Gathers setting files modules) {f : FileDecl} {items : List Item}
    (hf : fileItems setting f = .ok items) :
    Gathers setting (files ++ [f]) (addToModule (fileModule f) items modules) where
  sorted := sorted_addToModule h.sorted
  mem_iff module := by
    rw [mem_keys_addToModule, h.mem_iff]
    simp only [List.mem_append, List.mem_singleton, or_and_right, exists_or, exists_eq_left]
    rw [or_comm, eq_comm]
  code module code hmem := by
    rw [List.filter_append]
    rcases mem_addToModule h.sorted hmem with ⟨hne, hin⟩ | ⟨rfl, present, rfl, hpresent⟩
    · obtain ⟨codes, hcodes, rfl⟩ := h.code module code hin
      exact ⟨codes, by simpa [hne.symm] using hcodes, rfl⟩
    · have hlast : [f].filter (fileModule · == fileModule f) = [f] := by simp
      obtain ⟨codes, hcodes, rfl⟩ : ∃ codes, List.Forall₂ (fun f items =>
          fileItems setting f = .ok items) (files.filter (fileModule · == fileModule f)) codes ∧
          present = codes.flatten := by
        rcases hpresent with hin | ⟨rfl, hnone⟩
        · exact h.code _ present hin
        · -- The module is new, so none of the files before is in it.
          refine ⟨[], ?_, rfl⟩
          rw [List.filter_eq_nil_iff.2]
          · exact .nil
          · intro g hg hsame
            exact hnone ((h.mem_iff _).2 ⟨g, hg, beq_iff_eq.1 hsame⟩)
      refine ⟨codes ++ [items], ?_, by simp⟩
      rw [hlast]
      exact List.rel_append hcodes (.cons hf .nil)

theorem gathers_of_collectModules {rest : List FileDecl} (h : Gathers setting files modules)
    {gathered : List (String × List Item)}
    (hrest : collectModules setting modules rest = .ok gathered) :
    Gathers setting (files ++ rest) gathered := by
  induction rest generalizing files modules with
  | nil =>
    cases hrest
    rwa [List.append_nil]
  | cons f rest ih =>
    rw [collectModules] at hrest
    obtain ⟨items, hitems, hrest⟩ := bind_eq_ok_iff.1 hrest
    have hnext := ih (h.add hitems) hrest
    rwa [List.append_assoc, List.singleton_append] at hnext

theorem gathers_collectModules (h : collectModules setting [] files = .ok modules) :
    Gathers setting files modules :=
  gathers_of_collectModules gathers_nil h

end Gathers

/-! ### Files of modules -/

theorem append_rs_inj {name other : String} : name ++ ".rs" = other ++ ".rs" ↔ name = other := by
  simp [← String.toList_inj]

theorem forall₂_renderModules {render : Renderer} {options : Options}
    {generated : List GeneratedFile} (h : renderModules render options modules = .ok generated) :
    List.Forall₂ (fun entry g => g.name = entry.1 ++ ".rs" ∧
      render options entry.2 = .ok g.content) modules generated := by
  induction modules generalizing generated with
  | nil =>
    cases h
    exact .nil
  | cons entry rest ih =>
    rw [renderModules] at h
    obtain ⟨content, hcontent, h⟩ := bind_eq_ok_iff.1 h
    obtain ⟨files, hfiles, h⟩ := bind_eq_ok_iff.1 h
    cases h
    exact .cons ⟨rfl, hcontent⟩ (ih hfiles)

/-- A generated file is the one of a module: it has the code of the module's files, one after the
other. -/
structure IsFileOf (render : Renderer) (options : Options) (setting : Setting)
    (files : List FileDecl) (module : String) (g : GeneratedFile) : Prop where
  name : g.name = module ++ ".rs"
  content : ∃ codes, List.Forall₂ (fun f items => fileItems setting f = .ok items)
    (files.filter (fileModule · == module)) codes ∧
    render options codes.flatten = .ok g.content

/-- The name and content of a file. -/
def GeneratedFile.entry (g : GeneratedFile) : String × String :=
  (g.name, g.content)

theorem writeFiles_append {files more : List GeneratedFile} {written : List (String × String)}
    (hfiles : ∀ g ∈ files, isWritable g.name = true) (hnames : (files.map (·.name)).Nodup)
    (hwritten : ∀ g ∈ files, g.name ∉ written.map Prod.fst) :
    writeFiles written (files ++ more) =
      writeFiles ((files.map GeneratedFile.entry).reverse ++ written) more := by
  induction files generalizing written with
  | nil => rfl
  | cons g rest ih =>
    obtain ⟨hg, hrest⟩ := List.forall_mem_cons.1 hfiles
    obtain ⟨hnew, hnames⟩ := List.nodup_cons.1 hnames
    obtain ⟨hfirst, hwritten⟩ := List.forall_mem_cons.1 hwritten
    have hkept : written.filter (·.1 != g.name) = written :=
      List.filter_eq_self.2 fun entry hentry => bne_iff_ne.2 fun heq =>
        hfirst (heq ▸ List.mem_map_of_mem hentry)
    rw [List.cons_append, writeFiles, if_pos hg, hkept, ih hrest hnames]
    · simp [GeneratedFile.entry]
    · intro other hother
      rw [List.map_cons, List.mem_cons, not_or]
      exact ⟨fun heq => hnew (List.mem_map.2 ⟨other, hother, heq⟩), hwritten other hother⟩

section Files

variable {render : Renderer} {options : Options} {setting : Setting} {files : List FileDecl}
  {modules : List String} {generated : List GeneratedFile}

theorem exists_of_generateFiles {only : Option (List String)} {out : List GeneratedFile}
    (h : generateFiles options files only render = .ok out) :
    ∃ modules generated, out = generated ++ [moduleIndex modules] ∧ modules.Nodup ∧
      (∀ module, module ∈ modules ↔ ∃ f ∈ files.filter (isSelected only), fileModule f = module) ∧
      List.Forall₂ (IsFileOf render options (Setting.ofFiles options files)
        (files.filter (isSelected only))) modules generated := by
  rw [generateFiles] at h
  obtain ⟨gathered, hgathered, h⟩ := bind_eq_ok_iff.1 h
  obtain ⟨generated, hgenerated, h⟩ := bind_eq_ok_iff.1 h
  cases h
  have hgathers := gathers_collectModules hgathered
  refine ⟨gathered.map Prod.fst, generated, rfl, ?_, hgathers.mem_iff, ?_⟩
  · refine hgathers.sorted.imp ?_
    rintro a _ hlt rfl
    exact String.lt_irrefl _ hlt
  · rw [List.forall₂_map_left_iff]
    refine (List.forall₂_and_left gathered generated).2
      ⟨fun entry hentry => hgathers.code entry.1 entry.2 hentry, forall₂_renderModules hgenerated⟩
      |>.imp ?_
    rintro entry g ⟨⟨codes, hcodes, hcode⟩, hname, hcontent⟩
    exact ⟨hname, codes, hcodes, hcode ▸ hcontent⟩

/-- What is left in a directory of the files of modules, and of the file that declares them. -/
theorem writeFiles_eq (hnames : (generated.map (·.name)).Nodup)
    (hwritable : ∀ g ∈ generated ++ [moduleIndex modules], isWritable g.name = true) :
    writeFiles [] (generated ++ [moduleIndex modules]) = {
      result := .ok ()
      isMade := true
      written := (moduleIndex modules).entry ::
        (generated.map GeneratedFile.entry).reverse.filter (·.1 != "mod.rs") } := by
  obtain ⟨hgenerated, hindex⟩ := List.forall_mem_append.1 hwritable
  rw [writeFiles_append hgenerated hnames (by simp), List.append_nil, writeFiles,
    if_pos (hindex _ (List.mem_singleton.2 rfl)), writeFiles]
  rfl

variable (h : List.Forall₂ (IsFileOf render options setting files) modules generated)

include h

theorem map_name_of_forall₂ :
    generated.map (·.name) = modules.map (· ++ ".rs") := by
  induction h with
  | nil => rfl
  | cons hfirst _ ih => rw [List.map_cons, List.map_cons, hfirst.name, ih]

theorem nodup_names (hmodules : modules.Nodup) : (generated.map (·.name)).Nodup := by
  rw [map_name_of_forall₂ h]
  exact hmodules.map fun _ _ => append_rs_inj.1

theorem mem_names_iff : "mod.rs" ∈ generated.map (·.name) ↔ "mod" ∈ modules := by
  rw [map_name_of_forall₂ h, List.mem_map]
  constructor
  · rintro ⟨module, hmodule, heq⟩
    exact (@append_rs_inj module "mod").1 heq ▸ hmodule
  · exact fun hmod => ⟨"mod", hmod, rfl⟩

/-- The files of modules have names other than that of the file that declares them, unless one of
the modules is called `mod`. -/
theorem nodup_names_append_iff (hmodules : modules.Nodup) :
    ((generated ++ [moduleIndex modules]).map (·.name)).Nodup ↔ "mod" ∉ modules := by
  rw [List.map_append, List.nodup_append, ← mem_names_iff h]
  refine ⟨fun h hin => h.2.2 _ hin _ (List.mem_singleton.2 rfl) rfl, fun hnot => ?_⟩
  refine ⟨nodup_names h hmodules, List.nodup_singleton _, ?_⟩
  rintro name hname _ hlast rfl
  have hlast : name = "mod.rs" := List.mem_singleton.1 hlast
  exact hnot (hlast ▸ hname)

theorem existsUnique_isFileOf (hmodules : modules.Nodup) {module : String}
    (hmodule : module ∈ modules) :
    ∃! g, g ∈ generated ∧ IsFileOf render options setting files module g := by
  obtain ⟨g, hg, hfile⟩ := exists_of_forall₂ h hmodule
  refine ⟨g, ⟨hg, hfile⟩, fun other ⟨hother, hother_file⟩ => ?_⟩
  exact List.inj_on_of_nodup_map (nodup_names h hmodules) hother hg
    (hother_file.name.trans hfile.name.symm)

theorem filter_entries (hmod : "mod" ∉ modules) :
    (generated.map GeneratedFile.entry).reverse.filter (·.1 != "mod.rs") =
      (generated.map GeneratedFile.entry).reverse := by
  refine List.filter_eq_self.2 fun entry hentry => bne_iff_ne.2 fun hname => ?_
  obtain ⟨g, hg, rfl⟩ := List.mem_map.1 (List.mem_reverse.1 hentry)
  exact hmod ((mem_names_iff h).1 (List.mem_map.2 ⟨g, hg, hname⟩))

end Files

/-- The code of the files asked for is in one generated file for each module, and the last file
declares the modules. All names are distinct unless a module is called `mod`: its file has the name
of the last one, which takes its place when both are written into a directory. A response has them
both. It does not matter how code becomes text. -/
theorem generated_files_apart {render : Renderer} {options : Options} {files : List FileDecl}
    {only : Option (List String)} {out : List GeneratedFile}
    (h : generateFiles options files only render = .ok out) :
    ∃ modules generated, out = generated ++ [moduleIndex modules] ∧
      List.Forall₂ (IsFileOf render options (Setting.ofFiles options files)
        (files.filter (isSelected only))) modules generated ∧
      (∀ f ∈ files.filter (isSelected only), ∃! g, g ∈ generated ∧ IsFileOf render options
        (Setting.ofFiles options files) (files.filter (isSelected only)) (fileModule f) g) ∧
      ((out.map (·.name)).Nodup ↔
        ∀ f ∈ files.filter (isSelected only), fileModule f ≠ "mod") ∧
      (∀ r, requestedFiles r render = .ok out → ∃ response, respond r render = .ok response ∧
        response.files.map (fun file => (file.name, file.content)) =
          out.map fun g => (some g.name, some g.content)) ∧
      (only = none → (∀ g ∈ out, isWritable g.name = true) →
        (compileFiles options true files render).result = .ok () ∧
        (compileFiles options true files render).written = (moduleIndex modules).entry ::
          (generated.map GeneratedFile.entry).reverse.filter (·.1 != "mod.rs") ∧
        ((out.map (·.name)).Nodup →
          (compileFiles options true files render).written =
            (out.map GeneratedFile.entry).reverse)) := by
  obtain ⟨modules, generated, rfl, hmodules, hmem, hgenerated⟩ := exists_of_generateFiles h
  refine ⟨modules, generated, rfl, hgenerated, fun f hf => ?_, ?_, fun r hr => ?_, ?_⟩
  · exact existsUnique_isFileOf hgenerated hmodules ((hmem _).2 ⟨f, hf, rfl⟩)
  · rw [nodup_names_append_iff hgenerated hmodules, hmem]
    exact ⟨fun hnone f hf heq => hnone ⟨f, hf, heq⟩, fun hall ⟨f, hf, heq⟩ => hall f hf heq⟩
  · rw [respond, hr]
    exact ⟨_, rfl, List.map_map⟩
  · rintro rfl hwritable
    rw [compileFiles, if_pos rfl, h]
    dsimp only
    rw [writeFiles_eq (nodup_names hgenerated hmodules) hwritable]
    refine ⟨rfl, rfl, fun hnodup => ?_⟩
    rw [nodup_names_append_iff hgenerated hmodules] at hnodup
    rw [filter_entries hgenerated hnodup, List.map_append, List.reverse_append]
    rfl

/-- An enum with one value. -/
def loneEnum (name value : String) : EnumDecl :=
  { name := some name, values := [{ name := some value, number := some 0 }] }

/-- A file of a package, with one enum. -/
def enumFile (name package : String) (e : EnumDecl) : FileDecl :=
  { name := some name, package := some package, enums := [e] }

/-- Three files, two of them of one package. -/
def sharedPackage : List FileDecl :=
  [enumFile "low.proto" "b.c" (loneEnum "Low" "A"), enumFile "high.proto" "a" (loneEnum "High" "A"),
   enumFile "more.proto" "b.c" (loneEnum "More" "A")]

theorem generated_files_apart_shared_package :
    ∃ out, generateFiles { skipFormat := true } sharedPackage none = .ok out ∧
      out.map (·.name) = ["a.rs", "b_c.rs", "mod.rs"] ∧ (out.map (·.name)).Nodup ∧
      (compileFiles { skipFormat := true } true sharedPackage).written =
        (out.map GeneratedFile.entry).reverse := by
  have hnames : (generateFiles { skipFormat := true } sharedPackage none).toOption.map
      (·.map (·.name)) = some ["a.rs", "b_c.rs", "mod.rs"] := by decide +kernel
  cases hout : generateFiles { skipFormat := true } sharedPackage none with
  | error failure =>
    rw [hout] at hnames
    cases hnames
  | ok out =>
    rw [hout] at hnames
    replace hnames : out.map (·.name) = ["a.rs", "b_c.rs", "mod.rs"] := Option.some.inj hnames
    obtain ⟨_, _, -, -, -, hiff, -, hcompiled⟩ := generated_files_apart hout
    have hnodup := hiff.2 (by decide +kernel)
    have hwritable : ∀ name ∈ out.map (·.name), isWritable name = true := by
      rw [hnames]
      decide +kernel
    exact ⟨out, rfl, hnames, hnodup,
      (hcompiled rfl fun g hg => hwritable _ (List.mem_map_of_mem hg)).2.2 hnodup⟩

/-- A file of the package `mod`. -/
def modFile : FileDecl :=
  enumFile "mode.proto" "mod" (loneEnum "Mode" "A")

/-- The file of a module `mod` is lost when the file that declares modules is written. -/
theorem generated_file_overwritten :
    (generateFiles { skipFormat := true } [modFile] none).toOption.map (·.map (·.name)) =
      some ["mod.rs", "mod.rs"] ∧
    (compileFiles { skipFormat := true } true [modFile]).written =
      [(moduleIndex ["mod"]).entry] := by
  decide +kernel

end ProtoWire.Generator
