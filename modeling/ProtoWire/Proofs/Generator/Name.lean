import ProtoWire.Code.Path
import ProtoWire.Generator.Name
import ProtoWire.Proofs.Text.Plain

/-!
# Names of plain names

What the generator makes of a plain name: which of the results are words, and which are legal.
-/

namespace ProtoWire.Generator

open Code Source Text

variable {name : String}

/-! ### Small letters -/

theorem isPlainPart_toLower {c : Char} (h : isPlainPart c = true) : isPlainPart c.toLower = true :=
  forall_isPlainPart (p := fun c => isPlainPart c.toLower = true) (by decide +kernel) h

theorem isPlainPart_of_mem_snakeFrom {previous : Option Char} {chars : List Char}
    (h : ∀ c ∈ chars, isPlainPart c = true) :
    ∀ c ∈ snakeFrom previous chars, isPlainPart c = true := by
  induction chars generalizing previous with
  | nil =>
    intro c hc
    cases hc
  | cons d rest ih =>
    have hd := h d List.mem_cons_self
    have hrest := @ih (some d) fun c hc => h c (List.mem_cons_of_mem _ hc)
    intro c hc
    rw [snakeFrom, isUppercase_eq hd] at hc
    split at hc
    · next hupper =>
      rw [toLowercase_eq hd hupper, List.mem_append, List.mem_append] at hc
      rcases hc with (hc | hc) | hc
      · split at hc
        · rw [List.mem_singleton.1 hc]
          decide
        · cases hc
      · rw [List.mem_singleton.1 hc]
        exact isPlainPart_toLower hd
      · exact hrest c hc
    · rcases List.mem_cons.1 hc with rfl | hc
      · exact hd
      · exact hrest c hc

/-- No underscore is put in front of the first letter. -/
theorem isPlain_snakeCase (h : IsPlain name) : IsPlain (snakeCase name) := by
  obtain ⟨first, rest, hname, hfirst, hrest⟩ := h.exists_cons
  have hpart := isPlainPart_of_isPlainStart hfirst
  have hsnake := @isPlainPart_of_mem_snakeFrom (some first) _ hrest
  rw [snakeCase, IsPlain, String.toList_ofList, hname, snakeFrom, isUppercase_eq hpart]
  split
  · next hupper =>
    rw [toLowercase_eq hpart hupper]
    exact isPlainChars_cons.2 ⟨forall_isPlainStart
      (p := fun c => c.isUpper = true → isPlainStart c.toLower = true) (by decide +kernel) hfirst
      hupper, hsnake⟩
  · exact isPlainChars_cons.2 ⟨hfirst, hsnake⟩

theorem snakeFrom_ne_nil {previous : Option Char} {first : Char} {rest : List Char}
    (h : isPlainPart first = true) : snakeFrom previous (first :: rest) ≠ [] := by
  rw [snakeFrom, isUppercase_eq h]
  split
  · next hupper => simp [toLowercase_eq h hupper]
  · exact List.cons_ne_nil _ _

theorem snakeCase_eq_underscore_iff (h : IsPlain name) : snakeCase name = "_" ↔ name = "_" := by
  refine ⟨fun heq => ?_, fun heq => by rw [heq]; decide +kernel⟩
  obtain ⟨first, rest, hname, hfirst, hrest⟩ := h.exists_cons
  have hpart := isPlainPart_of_isPlainStart hfirst
  have hchars : snakeFrom none (first :: rest) = ['_'] := by
    have hchars := congrArg String.toList heq
    rwa [snakeCase, String.toList_ofList, hname] at hchars
  have hlower : first.toLower = '_' → first.isUpper = false :=
    forall_isPlainPart (p := fun c => c.toLower = '_' → c.isUpper = false) (by decide +kernel) hpart
  rw [snakeFrom, isUppercase_eq hpart] at hchars
  split at hchars
  · next hupper =>
    rw [toLowercase_eq hpart hupper] at hchars
    have hfalse := hlower (List.cons.inj hchars).1
    exact absurd (hupper.symm.trans hfalse) (by decide)
  · obtain ⟨rfl, hnil⟩ := List.cons.inj hchars
    cases rest with
    | nil => exact String.toList_inj.1 hname
    | cons second rest => exact absurd hnil (snakeFrom_ne_nil (hrest second List.mem_cons_self))

/-! ### Escapes -/

/-- The keywords that cannot be escaped. -/
def bareKeywords : List String :=
  ["self", "super", "crate", "Self"]

theorem mem_unescapable_iff {word : String} (h : needsEscape word = true) :
    word ∈ unescapable ↔ word ∈ bareKeywords := by
  simp only [unescapable, bareKeywords, List.mem_cons, List.not_mem_nil, or_false]
  constructor
  · rintro (rfl | h)
    · exact absurd h (by decide)
    · tauto
  · tauto

theorem escaped_notMem_bareKeywords (word : String) : "r#" ++ word ∉ bareKeywords := by
  have hheads : ∀ keyword ∈ bareKeywords, keyword.toList.head? ≠ some 'r' := by decide
  exact fun hmem => hheads _ hmem (by rw [toList_escaped, List.head?_cons])

theorem fieldName_notMem_bareKeywords (name : String) : fieldName name ∉ bareKeywords := by
  have hlonger : ∀ keyword ∈ bareKeywords, keyword ++ "_" ∉ bareKeywords := by decide
  simp only [fieldName]
  split
  · next hbare => exact hlonger _ (List.contains_iff_mem.1 hbare)
  · next hbare =>
    split
    · exact escaped_notMem_bareKeywords _
    · exact fun hmem => hbare (List.contains_iff_mem.2 hmem)

theorem typeName_notMem_bareKeywords (name : String) : typeName name ∉ bareKeywords := by
  have hkeywords : ∀ keyword ∈ bareKeywords, needsEscape keyword = true := by decide
  unfold typeName
  split
  · exact escaped_notMem_bareKeywords _
  · next hescape => exact fun hmem => hescape (hkeywords name hmem)

theorem fieldName_cases (h : IsPlain name) :
    IsPlain (fieldName name) ∨
      ∃ word, IsPlain word ∧ word ∉ unescapable ∧ fieldName name = "r#" ++ word := by
  have hsnake := isPlain_snakeCase h
  simp only [fieldName]
  split
  · exact .inl (hsnake.append (by decide))
  · next hbare =>
    split
    · next hescape =>
      refine .inr ⟨_, hsnake, fun hmem => hbare ?_, rfl⟩
      exact List.contains_iff_mem.2 ((mem_unescapable_iff hescape).1 hmem)
    · exact .inl hsnake

theorem isLegal_fieldName (h : IsPlain name) : isLegal (fieldName name) = true := by
  rcases fieldName_cases h with hplain | ⟨word, hword, hescapable, heq⟩
  · exact isLegal_of_isPlain hplain
  · rw [heq, isLegal_escaped_iff hword]
    exact hescapable

theorem isWord_fieldName (h : IsPlain name) : IsWord (fieldName name) := by
  rcases fieldName_cases h with hplain | ⟨word, hword, -, heq⟩
  · exact .inl hplain
  · exact .inr ⟨word, hword, heq⟩

/-- Without its escape mark, the name of a field is plain. -/
theorem isPlain_bareName_fieldName (h : IsPlain name) : IsPlain (bareName (fieldName name)) := by
  rcases fieldName_cases h with hplain | ⟨word, hword, -, heq⟩
  · rwa [bareName_of_isPlain hplain]
  · rwa [heq, bareName_escaped hword]

theorem isWord_typeName (h : IsPlain name) : IsWord (typeName name) := by
  unfold typeName
  split
  · exact .inr ⟨name, h, rfl⟩
  · exact .inl h

/-- The name of a type is legal, unless it is a keyword that cannot be escaped. -/
theorem isLegal_typeName_iff (h : IsPlain name) :
    isLegal (typeName name) = true ↔ name ∉ bareKeywords := by
  unfold typeName
  split
  · next hescape => rw [isLegal_escaped_iff h, mem_unescapable_iff hescape]
  · next hescape =>
    have hkeywords : ∀ word ∈ bareKeywords, needsEscape word = true := by decide
    exact iff_of_true (isLegal_of_isPlain h) fun hmem => hescape (hkeywords name hmem)

/-! ### Words run together -/

/-- The characters of a name but for underscores, each with whether a word starts with it. -/
def wordChars (starts : Bool) : List Char → List (Char × Bool)
  | [] => []
  | c :: rest => if c == '_' then wordChars true rest else (c, starts) :: wordChars false rest

/-- A character where words are run together: a capital at the start of one. -/
def recased (p : Char × Bool) : Char :=
  if p.2 then p.1.toUpper else p.1.toLower

theorem mem_of_mem_wordChars {starts : Bool} {chars : List Char} {p : Char × Bool}
    (h : p ∈ wordChars starts chars) : p.1 ∈ chars := by
  fun_induction wordChars starts chars with
  | case1 => cases h
  | case2 _ _ _ _ ih => exact List.mem_cons_of_mem _ (ih h)
  | case3 _ _ _ _ ih =>
    rcases List.mem_cons.1 h with rfl | h
    · exact List.mem_cons_self
    · exact List.mem_cons_of_mem _ (ih h)

/-- By induction on the characters: they go on with a word, or start one. -/
theorem exists_splitChars {chars : List Char} (h : ∀ c ∈ chars, isPlainPart c = true) :
    ∃ part parts, splitChars '_' chars = part :: parts ∧
      (wordChars true chars).map recased = capitalized part ++ parts.flatMap capitalized ∧
      (wordChars false chars).map recased = part.map Char.toLower ++ parts.flatMap capitalized := by
  induction chars with
  | nil => exact ⟨[], [], rfl, rfl, rfl⟩
  | cons c rest ih =>
    obtain ⟨part, parts, hsplit, hstart, hrest⟩ := ih fun d hd => h d (List.mem_cons_of_mem _ hd)
    simp only [splitChars, wordChars, hsplit]
    split
    · exact ⟨[], part :: parts, rfl, hstart, hstart⟩
    · refine ⟨c :: part, parts, rfl, ?_, ?_⟩
      · rw [List.map_cons, hrest, capitalized, toUppercase_eq (h c List.mem_cons_self)]
        rfl
      · rw [List.map_cons, hrest]
        rfl

theorem toList_pascalCase (h : IsPlain name) :
    (pascalCase name).toList = (wordChars true name.toList).map recased := by
  obtain ⟨part, parts, hsplit, hstart, -⟩ := exists_splitChars fun c => isPlainPart_of_mem h
  rw [pascalCase, String.toList_ofList, hsplit, hstart, List.flatMap_cons]

theorem isPlainPart_of_mem_pascalCase (h : IsPlain name) :
    ∀ c ∈ (pascalCase name).toList, isPlainPart c = true := by
  intro c hc
  rw [toList_pascalCase h] at hc
  obtain ⟨⟨d, starts⟩, hd, rfl⟩ := List.mem_map.1 hc
  have hpart := isPlainPart_of_mem h (mem_of_mem_wordChars hd)
  cases starts with
  | true =>
    exact forall_isPlainPart (p := fun c => isPlainPart c.toUpper = true) (by decide +kernel) hpart
  | false => exact isPlainPart_toLower hpart

/-- Words run together start with the first character that is no underscore. -/
theorem head?_pascalCase (h : IsPlain name) :
    (pascalCase name).toList.head? =
      (name.toList.dropWhile (· == '_')).head?.map Char.toUpper := by
  rw [toList_pascalCase h, List.head?_map]
  induction name.toList with
  | nil => rfl
  | cons c rest ih =>
    rw [wordChars, List.dropWhile_cons]
    split
    · exact ih
    · rfl

/-- The name of an enum value is legal, if its first letter comes before any digit. -/
theorem isLegal_pascalCase_iff (h : IsPlain name) :
    isLegal (pascalCase name) = true ↔
      (name.toList.dropWhile (· == '_')).head?.any Char.isAlpha = true := by
  have hparts := isPlainPart_of_mem_pascalCase h
  have hhead := head?_pascalCase h
  rw [isLegal_iff hparts, IsPlain]
  cases hchars : (pascalCase name).toList with
  | nil =>
    rw [hchars] at hhead
    rw [Option.map_eq_none_iff.1 hhead.symm]
    simp [isPlainChars]
  | cons upper rest =>
    rw [hchars] at hhead hparts
    obtain ⟨c, hc, rfl⟩ := Option.map_eq_some_iff.1 hhead.symm
    have hmem := isPlainPart_of_mem h ((List.dropWhile_sublist _).subset (List.mem_of_head? hc))
    have hletter : (c == '_') = false := by
      have hdropped := List.head?_dropWhile_not (· == '_') name.toList
      rw [hc] at hdropped
      simpa using hdropped
    have hstart : isPlainStart c.toUpper = c.isAlpha :=
      forall_isPlainPart (p := fun c => (c == '_') = false → isPlainStart c.toUpper = c.isAlpha)
        (by decide +kernel) hmem hletter
    rw [isPlainChars_cons, hc, hstart, Option.any_some]
    exact and_iff_left fun d hd => hparts d (List.mem_cons_of_mem _ hd)

/-! ### Segments -/

theorem isKeyword_escaped (word : String) : isKeyword ("r#" ++ word) = false := by
  have hsecond : ∀ keyword ∈ keywords, (keyword.toList.tail.head? == some '#') = false := by
    decide +kernel
  rw [isKeyword, Bool.eq_false_iff]
  intro hmem
  have hmark := hsecond _ (List.contains_iff_mem.1 hmem)
  rw [toList_escaped] at hmark
  cases hmark

theorem isSegmentWord_escaped (word : String) : isSegmentWord ("r#" ++ word) = true := by
  have hne : "r#" ++ word ≠ "_" := by
    intro heq
    have hchars := congrArg String.toList heq
    rw [toList_escaped] at hchars
    exact absurd (List.cons.inj hchars).1 (by decide)
  simp [isSegmentWord, isKeyword_escaped, hne]

theorem isSegmentWord_iff {word : String} (h : isKeyword word = false) :
    isSegmentWord word = true ↔ word ≠ "_" := by
  have hkeywords : ∀ keyword ∈ ["super", "self", "crate", "try", "Self"],
      isKeyword keyword = true := by decide
  have hnot : ["super", "self", "crate", "try", "Self"].contains word = false := by
    rw [Bool.eq_false_iff]
    intro hmem
    exact Bool.false_ne_true (h.symm.trans (hkeywords word (List.contains_iff_mem.1 hmem)))
  rw [isSegmentWord, hnot, h]
  simp

/-- The module of a message may be a segment, unless the message is called `_`. -/
theorem isSegmentWord_moduleName_iff (h : IsPlain name) :
    isSegmentWord (moduleName name) = true ↔ name ≠ "_" := by
  have hlonger : ∀ keyword ∈ bareKeywords, isSegmentWord (keyword ++ "_") = true ∧
      keyword ≠ "_" := by decide
  rw [moduleName, ne_eq, ← snakeCase_eq_underscore_iff h]
  simp only [fieldName]
  split
  · next hbare =>
    obtain ⟨hword, hne⟩ := hlonger _ (List.contains_iff_mem.1 hbare)
    exact iff_of_true hword hne
  · split
    · next hescape =>
      refine iff_of_true (isSegmentWord_escaped _) fun heq => ?_
      rw [heq] at hescape
      exact absurd hescape (by decide)
    · next hescape =>
      rw [needsEscape, Bool.or_eq_true, not_or, Bool.not_eq_true] at hescape
      exact isSegmentWord_iff hescape.1

/-- The name of a type may be a segment, unless it cannot be escaped. -/
theorem isSegment_typeName_iff (h : IsPlain name) :
    (isLegal (typeName name) = true ∧ isSegmentWord (typeName name) = true) ↔
      name ∉ unescapable := by
  have hsplit : name ∉ unescapable ↔ name ∉ bareKeywords ∧ name ≠ "_" := by
    simp only [unescapable, bareKeywords, List.mem_cons, List.not_mem_nil, or_false]
    tauto
  rw [isLegal_typeName_iff h, hsplit]
  refine and_congr_right fun _ => ?_
  unfold typeName
  split
  · next hescape =>
    refine iff_of_true (isSegmentWord_escaped _) ?_
    rintro rfl
    exact absurd hescape (by decide)
  · next hescape =>
    rw [needsEscape, Bool.or_eq_true, not_or, Bool.not_eq_true] at hescape
    exact isSegmentWord_iff hescape.1

/-! ### Modules of packages -/

theorem mem_splitChars_of_mem {separator : Char} {chars : List Char} {c : Char} (hc : c ∈ chars) :
    c = separator ∨ ∃ part ∈ splitChars separator chars, c ∈ part := by
  induction chars with
  | nil => cases hc
  | cons first rest ih =>
    rw [splitChars]
    split
    · next hseparator =>
      rcases List.mem_cons.1 hc with rfl | hc
      · exact .inl (beq_iff_eq.1 hseparator)
      · refine (ih hc).imp_right ?_
        rintro ⟨part, hpart, hmem⟩
        exact ⟨part, List.mem_cons_of_mem _ hpart, hmem⟩
    · split
      · next hnone =>
        rcases List.mem_cons.1 hc with rfl | hc
        · exact .inr ⟨[c], List.mem_singleton.2 rfl, List.mem_singleton.2 rfl⟩
        · refine (ih hc).imp_right ?_
          rw [hnone]
          rintro ⟨part, hpart, -⟩
          cases hpart
      · next part parts hparts =>
        rcases List.mem_cons.1 hc with rfl | hc
        · exact .inr ⟨c :: part, List.mem_cons_self, List.mem_cons_self⟩
        · refine (ih hc).imp_right ?_
          rw [hparts]
          rintro ⟨other, hother, hmem⟩
          rcases List.mem_cons.1 hother with rfl | hother
          · exact ⟨first :: other, List.mem_cons_self, List.mem_cons_of_mem _ hmem⟩
          · exact ⟨other, List.mem_cons_of_mem _ hother, hmem⟩

/-- The first part starts with what is in front, unless that is a separator. -/
theorem exists_part_of_cons {separator first : Char} {rest : List Char} :
    [] ∈ splitChars separator (first :: rest) ∨
      ∃ more, (first :: more) ∈ splitChars separator (first :: rest) := by
  rw [splitChars]
  split
  · exact .inl List.mem_cons_self
  · split
    · exact .inr ⟨[], List.mem_cons_self⟩
    · exact .inr ⟨_, List.mem_cons_self⟩

theorem isPlain_underscored {package : String}
    (h : ∀ part ∈ Text.split '.' package, IsPlain part) :
    IsPlain (String.ofList (package.toList.map fun c => if c == '.' then '_' else c)) := by
  have hparts : ∀ part ∈ splitChars '.' package.toList, isPlainChars part = true := by
    intro part hpart
    have hplain := h _ (List.mem_map_of_mem hpart)
    rwa [IsPlain, String.toList_ofList] at hplain
  rw [IsPlain, String.toList_ofList]
  cases hchars : package.toList with
  | nil =>
    rw [hchars] at hparts
    exact absurd (hparts [] List.mem_cons_self) (by decide)
  | cons first rest =>
    rw [hchars] at hparts
    have hpart : ∀ c ∈ rest, isPlainPart (if c == '.' then '_' else c) = true := by
      intro c hc
      have hmem : c ∈ first :: rest := List.mem_cons_of_mem _ hc
      rcases @mem_splitChars_of_mem '.' _ _ hmem with rfl | ⟨part, hpart, hmem⟩
      · decide
      · split
        · decide
        · exact isPlainPart_of_mem (hparts part hpart) hmem
    -- An empty part is not plain, so the package does not start with a dot.
    rcases @exists_part_of_cons '.' first rest with hnone | ⟨more, hmore⟩
    · exact absurd (hparts [] hnone) (by decide)
    · have hfirst := (isPlainChars_cons.1 (hparts _ hmore)).1
      have hdot : (first == '.') = false :=
        forall_isPlainStart (p := fun c => (c == '.') = false) (by decide +kernel) hfirst
      rw [List.map_cons, hdot]
      refine isPlainChars_cons.2 ⟨hfirst, fun c hc => ?_⟩
      obtain ⟨d, hd, rfl⟩ := List.mem_map.1 hc
      exact hpart d hd

end ProtoWire.Generator
