import ProtoWire.Proofs.Text.Plain
import ProtoWire.Source.TokenTree

/-!
# Words in source text

The text of a path is words with two colons between them. Scanning such a text gives back the words,
unless one of them is no legal name.
-/

namespace ProtoWire.Source

open Text

variable {chars rest : List Char} {c : Char} {name : String}

/-- The trees of names with a separator before each. -/
def tailTrees (names : List String) : List TokenTree :=
  names.flatMap fun name => [.mark ':' true, .mark ':' false, .word name]

/-- The characters of names with a separator before each. -/
def tailChars (names : List String) : List Char :=
  names.flatMap fun name => ':' :: ':' :: name.toList

/-- Whether a character may stand in a path of words. -/
def isPathChar (c : Char) : Bool :=
  isPlainPart c || c == ':' || c == '#'

/-! ### Literals -/

theorem rawStringLength?_eq_none {rules : QuoteRules} (h : '"' ∉ chars) :
    rawStringLength? rules chars = none := by
  unfold rawStringLength?
  dsimp only
  split
  · next rest hdrop =>
    exact absurd (List.mem_of_mem_drop (hdrop ▸ List.mem_cons_self)) h
  · rfl

theorem stringLength?_eq_none (h : '"' ∉ chars) : stringLength? chars = none := by
  unfold stringLength?
  split
  · exact absurd List.mem_cons_self h
  · rw [rawStringLength?_eq_none fun hmem => h (List.mem_cons_of_mem _ hmem)]
    rfl
  · exact absurd (by simp) h
  · rw [rawStringLength?_eq_none fun hmem => h (by simp [hmem])]
    rfl
  · exact absurd (by simp) h
  · rw [rawStringLength?_eq_none fun hmem => h (by simp [hmem])]
    rfl
  · rfl

theorem startsTick_eq_false (h : ∀ c ∈ chars, c.toNat ≠ 39) : startsTick chars = false := by
  cases chars with
  | nil => rfl
  | cons c rest => simpa [startsTick] using h c List.mem_cons_self

theorem characterLength?_eq_none (h : ∀ c ∈ chars, c.toNat ≠ 39) :
    characterLength? chars = none := by
  unfold characterLength?
  split
  · rw [startsTick_eq_false fun c hc => h c (List.mem_cons_of_mem _ hc)]
    rfl
  · rw [startsTick_eq_false h]
    rfl

theorem integerLength?_eq_none (h : c.isDigit = false) : integerLength? (c :: rest) = none := by
  have hzero : c ≠ '0' := by
    rintro rfl
    cases h
  unfold integerLength?
  split <;> simp_all

theorem toNat_ne_of_isPathChar (h : isPathChar c = true) : c.toNat ≠ 39 := by
  intro heq
  rw [← Char.ofNat_toNat c, heq] at h
  exact absurd h (by decide)

/-- No literal is in front, unless a digit is. -/
theorem literalLength?_eq_none (hpath : ∀ d ∈ c :: rest, isPathChar d = true)
    (hc : c.isDigit = false) : literalLength? (c :: rest) = none := by
  have hquote : '"' ∉ c :: rest := fun hmem => absurd (hpath _ hmem) (by decide)
  have htick : ∀ d ∈ c :: rest, d.toNat ≠ 39 := fun d hd => toNat_ne_of_isPathChar (hpath d hd)
  have hfloat : floatLength? (c :: rest) = none := by simp [floatLength?, hc]
  rw [literalLength?, stringLength?_eq_none hquote, characterLength?_eq_none htick, hfloat,
    integerLength?_eq_none hc]
  rfl

/-! ### Leaves -/

/-- What stands behind a word in a path: nothing, or a separator. -/
def EndsWord (rest : List Char) : Prop :=
  ∀ c, rest.head? = some c → c = ':'

/-- A mark that has to stand inside a word, and is no part of one, is not in front. -/
theorem not_prefix_of_endsWord {mark : List Char} (hchars : ∀ c ∈ chars, isPlainPart c = true)
    (hrest : EndsWord rest) (hmark : mark.all isPlainPart = false)
    (hcolon : mark.contains ':' = false) : ¬ mark <+: chars ++ rest := by
  have hnot : ¬ mark <+: chars := fun h =>
    Bool.false_ne_true (hmark.symm.trans (List.all_eq_true.2 fun c hc => hchars c (h.subset hc)))
  intro hprefix
  rcases List.prefix_or_prefix_of_prefix hprefix (List.prefix_append chars rest) with
    h | ⟨more, rfl⟩
  · exact hnot h
  · rw [List.prefix_append_right_inj] at hprefix
    cases more with
    | nil => exact hnot (by simp)
    | cons c more =>
      obtain ⟨behind, rfl⟩ := hprefix
      rw [hrest c rfl] at hcolon
      simp at hcolon

theorem startsQuote_eq_false (hchars : ∀ c ∈ chars, isPlainPart c = true)
    (hpath : ∀ c ∈ chars ++ rest, isPathChar c = true) (hrest : EndsWord rest) :
    startsQuote (chars ++ rest) = false := by
  have hmarks : ∀ mark ∈ ["r\"", "b\"", "br\"", "br#", "c\"", "cr\"", "cr#"],
      mark.toList.all isPlainPart = false ∧ mark.toList.contains ':' = false := by decide +kernel
  rw [startsQuote, Bool.or_eq_false_iff, List.any_eq_false, Bool.and_eq_false_iff]
  constructor
  · intro mark hmark hprefix
    obtain ⟨hother, hcolon⟩ := hmarks mark hmark
    exact not_prefix_of_endsWord hchars hrest hother hcolon (List.isPrefixOf_iff_prefix.1 hprefix)
  · right
    rw [Option.any_eq_false]
    intro c hc
    simpa using
      toNat_ne_of_isPathChar (hpath c (List.mem_of_mem_tail (List.mem_of_head? hc)))

theorem plainWord?_append (hchars : isPlainChars chars = true) (hrest : EndsWord rest) :
    plainWord? (chars ++ rest) = some (String.ofList chars, rest) := by
  cases chars with
  | nil => cases hchars
  | cons first more =>
    obtain ⟨hfirst, hmore⟩ := isPlainChars_cons.1 hchars
    have hparts : ∀ c ∈ more, isIdentifierPart c = true :=
      fun c hc => isIdentifierPart_of_isPlainPart (hmore c hc)
    have hends : ∀ c, rest.head? = some c → isIdentifierPart c = false := by
      intro c hc
      rw [hrest c hc]
      decide +kernel
    rw [List.cons_append, plainWord?, isIdentifierStart_eq (isPlainPart_of_isPlainStart hfirst),
      hfirst, if_pos rfl, List.takeWhile_append_of_pos hparts, List.dropWhile_append_of_pos hparts]
    cases rest with
    | nil => simp
    | cons c rest => simp [hends c rfl]

theorem startsMark_eq_false (h : isPlainStart c = true) : startsMark (c :: rest) = false := by
  have hmark : isMark c = false :=
    forall_isPlainStart (p := fun c => isMark c = false) (by decide +kernel) h
  unfold startsMark
  split
  · rfl
  · rfl
  · next heq => cases heq; exact hmark
  · rfl

theorem leaf?_eq_word (hc : isPlainStart c = true) (hpath : ∀ d ∈ c :: rest, isPathChar d = true)
    (hquote : startsQuote (c :: rest) = false) :
    leaf? (c :: rest) = (word? (c :: rest)).map fun (word, rest) => (.word word, rest) := by
  have hdigit : c.isDigit = false :=
    forall_isPlainStart (p := fun c => c.isDigit = false) (by decide +kernel) hc
  simp [leaf?, literalLength?_eq_none hpath hdigit, startsMark_eq_false hc, hquote]

theorem leaf?_plain (hchars : isPlainChars chars = true)
    (hpath : ∀ c ∈ chars ++ rest, isPathChar c = true) (hrest : EndsWord rest) :
    leaf? (chars ++ rest) = some (.word (String.ofList chars), rest) := by
  have hquote := startsQuote_eq_false (fun _ => isPlainPart_of_mem hchars) hpath hrest
  have hword := plainWord?_append hchars hrest
  cases chars with
  | nil => cases hchars
  | cons first more =>
    obtain ⟨hfirst, hmore⟩ := isPlainChars_cons.1 hchars
    rw [List.cons_append] at hpath hquote hword ⊢
    rw [leaf?_eq_word hfirst hpath hquote]
    have hplain : word? (first :: (more ++ rest)) = plainWord? (first :: (more ++ rest)) := by
      unfold word?
      split
      · next behind heq =>
        exfalso
        obtain ⟨-, heq⟩ := List.cons.inj heq
        cases more with
        | nil => exact absurd (hrest '#' (by rw [← List.nil_append rest, heq]; rfl)) (by decide)
        | cons second more =>
          obtain ⟨rfl, -⟩ := List.cons.inj heq
          exact absurd (hmore '#' List.mem_cons_self) (by decide)
      · rfl
    rw [hplain, hword]
    rfl

theorem leaf?_escaped (hchars : isPlainChars chars = true)
    (hpath : ∀ c ∈ chars ++ rest, isPathChar c = true) (hrest : EndsWord rest) :
    leaf? ('r' :: '#' :: (chars ++ rest)) =
      if unescapable.contains (String.ofList chars) then none
      else some (.word ("r#" ++ String.ofList chars), rest) := by
  have hquote : startsQuote ('r' :: '#' :: (chars ++ rest)) = false := by
    simp [startsQuote, List.isPrefixOf]
  have hpath : ∀ c ∈ 'r' :: '#' :: (chars ++ rest), isPathChar c = true :=
    List.forall_mem_cons.2 ⟨by decide, List.forall_mem_cons.2 ⟨by decide, hpath⟩⟩
  rw [leaf?_eq_word (by decide) hpath hquote, word?, plainWord?_append hchars hrest]
  simp [apply_ite]

theorem leaf?_colon (hpath : ∀ c ∈ rest, isPathChar c = true) :
    leaf? (':' :: rest) = some (.mark ':' (startsMark rest), rest) := by
  have hliteral : literalLength? (':' :: rest) = none :=
    literalLength?_eq_none (List.forall_mem_cons.2 ⟨by decide, hpath⟩) (by decide)
  simp [leaf?, hliteral, startsMark, isMark]

/-! ### Words of a path -/

theorem endsWord_tailChars (names : List String) : EndsWord (tailChars names) := by
  intro c hc
  cases names with
  | nil => cases hc
  | cons name rest =>
    cases hc
    rfl

theorem IsWord.exists_cons (h : IsWord name) :
    ∃ first rest, name.toList = first :: rest ∧ isPlainStart first = true := by
  rcases h with h | ⟨word, -, rfl⟩
  · obtain ⟨first, rest, hname, hfirst, -⟩ := h.exists_cons
    exact ⟨first, rest, hname, hfirst⟩
  · exact ⟨'r', '#' :: word.toList, toList_escaped word, by decide⟩

theorem isPathChar_of_isPlain {word : String} (h : IsPlain word) :
    ∀ c ∈ word.toList, isPathChar c = true := by
  intro c hc
  rw [isPathChar, isPlainPart_of_mem h hc]
  rfl

theorem IsWord.isPathChar (h : IsWord name) : ∀ c ∈ name.toList, Source.isPathChar c = true := by
  rcases h with h | ⟨word, h, rfl⟩
  · exact isPathChar_of_isPlain h
  · rw [toList_escaped]
    exact List.forall_mem_cons.2
      ⟨by decide, List.forall_mem_cons.2 ⟨by decide, isPathChar_of_isPlain h⟩⟩

theorem isPathChar_tailChars {names : List String} (h : ∀ name ∈ names, IsWord name) :
    ∀ c ∈ tailChars names, isPathChar c = true := by
  intro c hc
  obtain ⟨name, hname, hc⟩ := List.mem_flatMap.1 hc
  exact List.forall_mem_cons.2
    ⟨by decide, List.forall_mem_cons.2 ⟨by decide, (h name hname).isPathChar⟩⟩ c hc

/-- A word is a leaf, unless it is not legal. -/
theorem leaf?_word (hname : IsWord name) (hrest : ∀ c ∈ rest, isPathChar c = true)
    (hends : EndsWord rest) :
    leaf? (name.toList ++ rest) = if isLegal name then some (.word name, rest) else none := by
  rcases hname with h | ⟨word, h, rfl⟩
  · rw [leaf?_plain h (List.forall_mem_append.2 ⟨isPathChar_of_isPlain h, hrest⟩) hends,
      String.ofList_toList, isLegal_of_isPlain h]
    rfl
  · rw [toList_escaped, List.cons_append, List.cons_append,
      leaf?_escaped h (List.forall_mem_append.2 ⟨isPathChar_of_isPlain h, hrest⟩) hends,
      String.ofList_toList]
    by_cases hword : word ∈ unescapable
    · rw [if_pos (List.contains_iff_mem.2 hword), if_neg]
      rw [isLegal_escaped_iff h]
      exact not_not_intro hword
    · rw [if_neg (mt List.contains_iff_mem.1 hword), if_pos ((isLegal_escaped_iff h).2 hword)]

/-! ### Scanning -/

theorem afterBlank?_eq_none (hslash : c ≠ '/')
    (hblank : (isBlank c || c.toNat == 0x200e || c.toNat == 0x200f) = false) :
    afterBlank? (c :: rest) = none := by
  unfold afterBlank?
  split <;> simp_all

theorem documentation?_eq_none (hslash : c ≠ '/') : documentation? (c :: rest) = none := by
  unfold documentation?
  split <;> simp_all

namespace TokenTree

variable {done : List TokenTree} {fuel : Nat}

theorem scanChars?_leaf (hc : isPlainStart c = true ∨ c = ':') :
    scanChars? (fuel + 1) [] done (c :: rest) =
      (leaf? (c :: rest)).bind fun (tree, rest) => scanChars? fuel [] (tree :: done) rest := by
  obtain ⟨hslash, hblank, hopens, hcloses⟩ : c ≠ '/' ∧
      (isBlank c || c.toNat == 0x200e || c.toNat == 0x200f) = false ∧
      Bracket.all.find? (·.opens == c) = none ∧ Bracket.all.find? (·.closes == c) = none := by
    rcases hc with hc | rfl
    · exact forall_isPlainStart (p := fun c => c ≠ '/' ∧
        (isBlank c || c.toNat == 0x200e || c.toNat == 0x200f) = false ∧
        Bracket.all.find? (·.opens == c) = none ∧ Bracket.all.find? (·.closes == c) = none)
        (by decide +kernel) hc
    · decide +kernel
  have hunreadable : unreadable.toList.isPrefixOf (c :: rest) = false := by
    have hround : ('(' == c) = false := by
      simp only [Bracket.all, List.find?_eq_none] at hopens
      simpa [Bracket.opens] using hopens .round (by simp)
    simp [unreadable, List.isPrefixOf, hround]
  rw [scanChars?, afterBlank?_eq_none hslash hblank, documentation?_eq_none hslash]
  simp only [hunreadable, hopens, hcloses]
  rfl

theorem scanChars?_colon (hrest : ∀ c ∈ rest, isPathChar c = true) :
    scanChars? (fuel + 1) [] done (':' :: rest) =
      scanChars? fuel [] (.mark ':' (startsMark rest) :: done) rest := by
  rw [scanChars?_leaf (.inr rfl), leaf?_colon hrest]
  rfl

theorem scanChars?_word (hname : IsWord name) (hrest : ∀ c ∈ rest, isPathChar c = true)
    (hends : EndsWord rest) :
    scanChars? (fuel + 1) [] done (name.toList ++ rest) =
      if isLegal name then scanChars? fuel [] (.word name :: done) rest else none := by
  have hleaf := leaf?_word hname hrest hends
  obtain ⟨first, more, hchars, hfirst⟩ := hname.exists_cons
  rw [hchars, List.cons_append] at hleaf ⊢
  rw [scanChars?_leaf (.inl hfirst), hleaf]
  split <;> rfl

theorem scanChars?_tailChars {names : List String} (hnames : ∀ name ∈ names, IsWord name)
    (hfuel : (tailChars names).length ≤ fuel) (done : List TokenTree) :
    scanChars? fuel [] done (tailChars names) =
      if names.all isLegal then some (done.reverse ++ tailTrees names) else none := by
  induction names generalizing fuel done with
  | nil => simp [tailChars, tailTrees, scanChars?]
  | cons name names ih =>
    obtain ⟨hname, hnames⟩ := List.forall_mem_cons.1 hnames
    obtain ⟨first, more, hchars, hfirst⟩ := hname.exists_cons
    have htail := isPathChar_tailChars hnames
    have hpath : ∀ c ∈ name.toList ++ tailChars names, isPathChar c = true :=
      List.forall_mem_append.2 ⟨hname.isPathChar, htail⟩
    have hmark : startsMark (name.toList ++ tailChars names) = false := by
      rw [hchars]
      exact startsMark_eq_false hfirst
    have hsplit : tailChars (name :: names) = ':' :: ':' :: (name.toList ++ tailChars names) := rfl
    rw [hsplit] at hfuel ⊢
    obtain ⟨fuel, rfl⟩ : ∃ k, fuel = k + 3 := by
      rw [hchars] at hfuel
      exact ⟨fuel - 3, by simp at hfuel; omega⟩
    have hfuel : (tailChars names).length ≤ fuel := by
      rw [hchars] at hfuel
      simp at hfuel
      omega
    rw [scanChars?_colon (List.forall_mem_cons.2 ⟨by decide, hpath⟩), scanChars?_colon hpath, hmark,
      scanChars?_word hname htail (endsWord_tailChars names), ih hnames hfuel, List.all_cons]
    cases isLegal name <;> simp [tailTrees, startsMark, isMark]

theorem toList_intercalate_colons (name : String) (rest : List String) :
    ("::".intercalate (name :: rest)).toList = name.toList ++ tailChars rest := by
  induction rest generalizing name with
  | nil => simp [tailChars]
  | cons second rest ih =>
    rw [String.intercalate_cons_of_ne_nil (List.cons_ne_nil _ _), String.toList_append,
      String.toList_append, ih, List.append_assoc]
    rfl

/-- The trees of words with separators between them. -/
theorem scan?_intercalate {rest : List String} (hname : IsWord name)
    (hrest : ∀ word ∈ rest, IsWord word) :
    scan? ("::".intercalate (name :: rest)) =
      if (name :: rest).all isLegal then some (.word name :: tailTrees rest) else none := by
  obtain ⟨first, more, hchars, hfirst⟩ := hname.exists_cons
  have hmark : (first.toNat == 0xfeff) = false :=
    forall_isPlainStart (p := fun c => (c.toNat == 0xfeff) = false) (by decide +kernel) hfirst
  have hscan : scan? ("::".intercalate (name :: rest)) =
      scanChars? ((more ++ tailChars rest).length + 1) [] [] (name.toList ++ tailChars rest) := by
    rw [scan?, toList_intercalate_colons, hchars]
    simp [hmark]
  rw [hscan, scanChars?_word hname (isPathChar_tailChars hrest) (endsWord_tailChars rest),
    scanChars?_tailChars hrest (by simp), List.all_cons]
  cases isLegal name <;> simp

end TokenTree

end ProtoWire.Source
