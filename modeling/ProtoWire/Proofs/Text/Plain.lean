import Mathlib.Tactic.Tauto
import ProtoWire.Source.Name
import ProtoWire.Text.Letter

/-!
# Plain names

A plain name is a letter or an underscore with letters, digits and underscores behind it, all of the
basic alphabet. These are the names that schemas may have. A word of generated code is a plain name,
as it is or escaped.
-/

namespace ProtoWire

variable {name : String}

namespace Text

variable {c : Char} {p : Char → Prop}

/-- Whether a plain name may start with a character. -/
def isPlainStart (c : Char) : Bool :=
  c.isAlpha || c == '_'

/-- Whether a plain name may go on with a character. -/
def isPlainPart (c : Char) : Bool :=
  c.isAlphanum || c == '_'

/-- Whether characters are those of a plain name. -/
def isPlainChars : List Char → Bool
  | [] => false
  | first :: rest => isPlainStart first && rest.all isPlainPart

/-- A plain name. -/
def IsPlain (name : String) : Prop :=
  isPlainChars name.toList = true

instance (name : String) : Decidable (IsPlain name) :=
  inferInstanceAs (Decidable (isPlainChars name.toList = true))

theorem isPlainChars_cons {first : Char} {rest : List Char} :
    isPlainChars (first :: rest) = true ↔
      isPlainStart first = true ∧ ∀ c ∈ rest, isPlainPart c = true := by
  rw [isPlainChars, Bool.and_eq_true, List.all_eq_true]

theorem IsPlain.exists_cons (h : IsPlain name) :
    ∃ first rest, name.toList = first :: rest ∧ isPlainStart first = true ∧
      ∀ c ∈ rest, isPlainPart c = true := by
  unfold IsPlain at h
  cases hchars : name.toList with
  | nil =>
    rw [hchars] at h
    cases h
  | cons first rest =>
    rw [hchars] at h
    exact ⟨first, rest, rfl, isPlainChars_cons.1 h⟩

theorem isPlainPart_of_isPlainStart (h : isPlainStart c = true) : isPlainPart c = true := by
  simp only [isPlainStart, isPlainPart, Char.isAlphanum, Bool.or_eq_true] at h ⊢
  tauto

theorem isPlainPart_of_mem {chars : List Char} (h : isPlainChars chars = true) (hc : c ∈ chars) :
    isPlainPart c = true := by
  cases chars with
  | nil => cases hc
  | cons first rest =>
    obtain ⟨hfirst, hrest⟩ := isPlainChars_cons.1 h
    rcases List.mem_cons.1 hc with rfl | hc
    · exact isPlainPart_of_isPlainStart hfirst
    · exact hrest c hc

theorem IsPlain.append {behind : String} (h : IsPlain name)
    (hbehind : behind.toList.all isPlainPart = true) : IsPlain (name ++ behind) := by
  obtain ⟨first, rest, hname, hfirst, hrest⟩ := h.exists_cons
  rw [IsPlain, String.toList_append, hname]
  exact isPlainChars_cons.2
    ⟨hfirst, List.forall_mem_append.2 ⟨hrest, List.all_eq_true.1 hbehind⟩⟩

/-! ### The basic alphabet -/

/-- What holds of the basic alphabet is found by trying it. -/
theorem forall_basic (h : ∀ n : Fin 128, p (Char.ofNat n)) (hc : c.toNat < 128) : p c := by
  have hthis := h ⟨c.toNat, hc⟩
  rwa [Char.ofNat_toNat] at hthis

theorem toNat_lt_of_isPlainPart (h : isPlainPart c = true) : c.toNat < 128 := by
  have hparts : isPlainPart c = (decide (c.val ≥ 'A'.val ∧ c.val ≤ 'Z'.val) ||
      (decide (c.val ≥ 'a'.val) && decide (c.val ≤ 'z'.val)) ||
      (decide (c.val ≥ '0'.val) && decide (c.val ≤ '9'.val)) || c == '_') := rfl
  simp only [hparts, Bool.or_eq_true, Bool.and_eq_true, decide_eq_true_eq, beq_iff_eq, ge_iff_le,
    UInt32.le_iff_toNat_le] at h
  rcases h with ((⟨-, h⟩ | ⟨-, h⟩) | ⟨-, h⟩) | rfl
  · exact Nat.lt_of_le_of_lt h (by decide)
  · exact Nat.lt_of_le_of_lt h (by decide)
  · exact Nat.lt_of_le_of_lt h (by decide)
  · decide

/-- What holds of the characters of plain names is found by trying them. -/
theorem forall_isPlainPart (h : ∀ n : Fin 128, isPlainPart (Char.ofNat n) = true → p (Char.ofNat n))
    (hc : isPlainPart c = true) : p c :=
  forall_basic (p := fun c => isPlainPart c = true → p c) h (toNat_lt_of_isPlainPart hc) hc

/-- What holds of the first characters of plain names is found by trying them. -/
theorem forall_isPlainStart
    (h : ∀ n : Fin 128, isPlainStart (Char.ofNat n) = true → p (Char.ofNat n))
    (hc : isPlainStart c = true) : p c :=
  forall_basic (p := fun c => isPlainStart c = true → p c) h
    (toNat_lt_of_isPlainPart (isPlainPart_of_isPlainStart hc)) hc

theorem isIdentifierStart_eq (h : isPlainPart c = true) : isIdentifierStart c = isPlainStart c :=
  forall_isPlainPart (p := fun c => isIdentifierStart c = isPlainStart c) (by decide +kernel) h

theorem isIdentifierPart_of_isPlainPart (h : isPlainPart c = true) : isIdentifierPart c = true :=
  forall_isPlainPart (p := fun c => isIdentifierPart c = true) (by decide +kernel) h

/-- Of the characters of plain names, an identifier is made only as a plain name. -/
theorem isIdentifier_iff {text : String} (h : ∀ c ∈ text.toList, isPlainPart c = true) :
    isIdentifier text = true ↔ IsPlain text := by
  unfold isIdentifier IsPlain
  cases htext : text.toList with
  | nil => rfl
  | cons first rest =>
    rw [htext] at h
    have hrest : rest.all isPlainPart = true :=
      List.all_eq_true.2 fun c hc => h c (List.mem_cons_of_mem _ hc)
    have hparts : rest.all isIdentifierPart = true := List.all_eq_true.2 fun c hc =>
      isIdentifierPart_of_isPlainPart (h c (List.mem_cons_of_mem _ hc))
    simp only [isPlainChars, isIdentifierStart_eq (h first List.mem_cons_self), hrest, hparts]

theorem isUppercase_eq (h : isPlainPart c = true) : isUppercase c = c.isUpper :=
  forall_isPlainPart (p := fun c => isUppercase c = c.isUpper) (by decide +kernel) h

theorem toLowercase_eq (h : isPlainPart c = true) (hupper : c.isUpper = true) :
    toLowercase c = [c.toLower] :=
  forall_isPlainPart (p := fun c => c.isUpper = true → toLowercase c = [c.toLower])
    (by decide +kernel) h hupper

theorem toUppercase_eq (h : isPlainPart c = true) : toUppercase c = [c.toUpper] :=
  forall_isPlainPart (p := fun c => toUppercase c = [c.toUpper]) (by decide +kernel) h

end Text

namespace Source

open Text

/-- A word of generated code: a plain name as it is, or escaped. -/
def IsWord (text : String) : Prop :=
  IsPlain text ∨ ∃ word, IsPlain word ∧ text = "r#" ++ word

theorem isLegal_iff {text : String} (h : ∀ c ∈ text.toList, isPlainPart c = true) :
    isLegal text = true ↔ IsPlain text := by
  unfold isLegal
  split
  · next rest htext =>
    have hmark : isPlainPart '#' = true := h '#' (by rw [htext]; simp)
    exact absurd hmark (by decide)
  · exact isIdentifier_iff h

theorem isLegal_of_isPlain (h : IsPlain name) : isLegal name = true :=
  (isLegal_iff fun _ => isPlainPart_of_mem h).2 h

theorem toList_escaped (word : String) : ("r#" ++ word).toList = 'r' :: '#' :: word.toList := by
  rw [String.toList_append]
  rfl

theorem isLegal_escaped_iff {word : String} (h : IsPlain word) :
    isLegal ("r#" ++ word) = true ↔ word ∉ unescapable := by
  simp [isLegal, (isIdentifier_iff fun _ => isPlainPart_of_mem h).2 h]

theorem dropRawMarks_of_isPlainChars {chars : List Char} (h : isPlainChars chars = true) :
    dropRawMarks chars = chars := by
  unfold dropRawMarks
  split
  · have hmark : isPlainPart '#' = true := isPlainPart_of_mem h (by simp)
    exact absurd hmark (by decide)
  · rfl

theorem bareName_of_isPlain (h : IsPlain name) : bareName name = name := by
  rw [bareName, dropRawMarks_of_isPlainChars h, String.ofList_toList]

theorem bareName_escaped {word : String} (h : IsPlain word) : bareName ("r#" ++ word) = word := by
  rw [bareName, toList_escaped, dropRawMarks, dropRawMarks_of_isPlainChars h, String.ofList_toList]

end Source

end ProtoWire
