import Mathlib.Data.Nat.Digits.Lemmas
import ProtoWire.Text.Unescape

/-!
# Escaped bytes are read as they are spelled

The spellings of a byte, said without reading them, and the flaws that a text may have instead of
one. A text is spelled by bytes or has a flaw, and never both, which is what unescaping finds out.
-/

namespace ProtoWire.Text

variable {byte c x : UInt8} {bytes cs rest t text : Bytes} {d value : Nat}

/-! ### Spellings -/

/-- A digit of a base, as a letter of either case where it has to be one, and its value. -/
def IsDigit (base : Nat) (c : UInt8) (d : Nat) : Prop :=
  d < base ∧ (c = (Nat.digitChar d).toUInt8 ∨ c = (Nat.digitChar d).toUpper.toUInt8)

/-- A way to spell a byte by its number. -/
structure Radix where
  /-- What stands between the backslash and the digits. -/
  mark : Bytes
  base : Nat
  /-- How many digits there are at most. -/
  most : Nat

def octal : Radix := ⟨[], 8, 3⟩

def hexadecimal (x : UInt8) : Radix := ⟨[x], 16, 2⟩

def hexMarks : Bytes :=
  ['x', 'X'].map Char.toUInt8

def radices : List Radix :=
  octal :: hexMarks.map hexadecimal

/-- Digits that are a number. Fewer than there may be are not followed by another one. -/
structure Radix.Reads (r : Radix) (cs : Bytes) (value : Nat) (rest : Bytes) : Prop where
  digits : ∃ ds, List.Forall₂ (IsDigit r.base) cs ds ∧ Nat.ofDigits r.base ds.reverse = value
  ne_nil : cs ≠ []
  length_le : cs.length ≤ r.most
  stop : cs.length < r.most → ∀ c ∈ rest.head?, ∀ d, ¬IsDigit r.base c d

/-- The letters that spell a byte on their own, behind a backslash. -/
def simpleEscapes : List (UInt8 × UInt8) :=
  [('n', '\n'), ('r', '\r'), ('t', '\t'), ('a', '\x07'), ('b', '\x08'), ('f', '\x0c'),
    ('v', '\x0b'), ('?', '?'), ('\\', '\\'), ('\'', '\''), ('"', '"')].map
      (Prod.map Char.toUInt8 Char.toUInt8)

/-- The spellings of a byte before `rest`. -/
inductive Spells (rest : Bytes) : UInt8 → Bytes → Prop
  | itself {byte : UInt8} : byte ≠ backslash → Spells rest byte [byte]
  | simple {c byte : UInt8} : (c, byte) ∈ simpleEscapes → Spells rest byte [backslash, c]
  | number {r : Radix} {cs : Bytes} {byte : UInt8} : r ∈ radices →
    r.Reads cs byte.toNat rest → Spells rest byte (backslash :: (r.mark ++ cs))

/-- Spellings of bytes one after the other. -/
inductive SpellsAll : Bytes → Bytes → Prop
  | nil : SpellsAll [] []
  | cons {byte : UInt8} {bytes t rest : Bytes} : Spells rest byte t → SpellsAll bytes rest →
    SpellsAll (byte :: bytes) (t ++ rest)

/-- A text with a backslash that spells nothing: the last character, before a letter that is no
escape, before a mark without digits, or before an octal number that no byte has. -/
inductive Flawed : Bytes → Prop
  | trailing : Flawed [backslash]
  | unknown {c : UInt8} {rest : Bytes} : (∀ byte, (c, byte) ∉ simpleEscapes) → c ∉ hexMarks →
    (∀ d, ¬IsDigit 8 c d) → Flawed (backslash :: c :: rest)
  | noDigit {x : UInt8} {rest : Bytes} : x ∈ hexMarks →
    (∀ c ∈ rest.head?, ∀ d, ¬IsDigit 16 c d) → Flawed (backslash :: x :: rest)
  | tooLarge {cs rest : Bytes} {value : Nat} : octal.Reads cs value rest → 255 < value →
    Flawed (backslash :: (cs ++ rest))
  | behind {byte : UInt8} {t rest : Bytes} : Spells rest byte t → Flawed rest → Flawed (t ++ rest)

theorem Spells.ne_nil (h : Spells rest byte t) : t ≠ [] := by
  cases h <;> simp

/-! ### Digits -/

instance (base : Nat) (c : UInt8) (d : Nat) : Decidable (IsDigit base c d) :=
  inferInstanceAs (Decidable (_ ∧ _))

theorem octalDigit?_eq_some_iff : octalDigit? c = some d ↔ IsDigit 8 c d := by
  constructor
  · intro h
    simp only [octalDigit?, UInt8.le_iff_toNat_le, Option.ite_none_right_eq_some,
      Option.some.injEq] at h
    obtain ⟨⟨hge, hle⟩, rfl⟩ := h
    rw [← @UInt8.ofNat_toNat c]
    generalize c.toNat = n at *
    change 48 ≤ n at hge
    change n ≤ 55 at hle
    interval_cases n <;> decide
  · rintro ⟨hd, rfl | rfl⟩ <;> interval_cases d <;> rfl

theorem hexDigit?_eq_some_iff : hexDigit? c = some d ↔ IsDigit 16 c d := by
  constructor
  · rw [hexDigit?, ← @UInt8.ofNat_toNat c]
    have hc : c.toNat < 256 := c.toNat_lt
    generalize c.toNat = n at *
    intro h
    -- three ranges in one order, so there is no bound to work with: one byte after the other
    interval_cases n <;> cases h <;> decide
  · rintro ⟨hd, rfl | rfl⟩ <;> interval_cases d <;> rfl

theorem ofDigits_eq (base : Nat) (ds : List Nat) :
    ofDigits base ds = Nat.ofDigits base ds.reverse := by
  rw [ofDigits, Nat.ofDigits_eq_foldr, List.foldr_reverse]
  simp only [Nat.cast_id, Nat.add_comm]

/-- The digits that bytes start with are taken up to the first that is none. -/
theorem leadingDigits_append {digit? : UInt8 → Option Nat} {base count : Nat} {ds : List Nat}
    (hdigit : ∀ c d, digit? c = some d ↔ IsDigit base c d)
    (hds : List.Forall₂ (IsDigit base) cs ds) (hle : cs.length ≤ count)
    (hstop : cs.length < count → ∀ c ∈ rest.head?, ∀ d, ¬IsDigit base c d) :
    leadingDigits digit? count (cs ++ rest) = ds := by
  induction hds generalizing count with
  | nil =>
    match count, rest with
    | 0, _ | _ + 1, [] => rfl
    | _ + 1, c :: _ =>
      have hnone : digit? c = none :=
        Option.eq_none_iff_forall_ne_some.2 fun d hd =>
          hstop (Nat.succ_pos _) c rfl d ((hdigit c d).1 hd)
      simp only [List.nil_append, leadingDigits, hnone]
  | @cons c d cs ds hd _ ih =>
    obtain _ | count := count
    · cases hle
    · have hrest := ih (Nat.le_of_succ_le_succ hle) fun hlt => hstop (Nat.succ_lt_succ hlt)
      simp only [List.cons_append, leadingDigits, (hdigit c d).2 hd, hrest]

/-- Bytes are digits of a base, no more than so many, and a rest that starts with none. -/
theorem exists_digits (base count : Nat) (text : Bytes) :
    ∃ cs rest ds, text = cs ++ rest ∧ List.Forall₂ (IsDigit base) cs ds ∧ cs.length ≤ count ∧
      (cs.length < count → ∀ c ∈ rest.head?, ∀ d, ¬IsDigit base c d) := by
  induction count generalizing text with
  | zero => exact ⟨[], text, [], rfl, .nil, Nat.le_refl 0, fun h => absurd h (Nat.lt_irrefl 0)⟩
  | succ count ih =>
    obtain _ | ⟨c, text⟩ := text
    · exact ⟨[], [], [], rfl, .nil, Nat.zero_le _, fun _ c hc => nomatch hc⟩
    by_cases hdigit : ∃ d, IsDigit base c d
    · obtain ⟨d, hd⟩ := hdigit
      obtain ⟨cs, rest, ds, rfl, hds, hle, hstop⟩ := ih text
      exact ⟨c :: cs, rest, d :: ds, rfl, .cons hd hds, Nat.succ_le_succ hle,
        fun hlt => hstop (Nat.lt_of_succ_lt_succ hlt)⟩
    · refine ⟨[], c :: text, [], rfl, .nil, Nat.zero_le _, fun _ c' hc' d hd => ?_⟩
      cases hc'
      exact hdigit ⟨d, hd⟩

namespace Radix

variable {r : Radix}

theorem exists_reads (hmost : 0 < r.most) (hd : IsDigit r.base c d) (text : Bytes) :
    ∃ cs value rest, c :: text = cs ++ rest ∧ r.Reads cs value rest := by
  obtain ⟨cs, rest, ds, heq, hds, hle, hstop⟩ := exists_digits r.base r.most (c :: text)
  refine ⟨cs, _, rest, heq, ⟨ds, hds, rfl⟩, ?_, hle, hstop⟩
  rintro rfl
  rw [List.nil_append] at heq
  exact hstop hmost c (heq ▸ rfl) d hd

theorem Reads.exists_leadingDigits {digit? : UInt8 → Option Nat} (h : r.Reads cs value rest)
    (hdigit : ∀ c d, digit? c = some d ↔ IsDigit r.base c d) :
    ∃ d ds, leadingDigits digit? r.most (cs ++ rest) = d :: ds ∧ (d :: ds).length = cs.length ∧
      ofDigits r.base (d :: ds) = value := by
  obtain ⟨ds, hds, rfl⟩ := h.digits
  have hlead := leadingDigits_append hdigit hds h.length_le h.stop
  cases hds with
  | nil => exact absurd rfl h.ne_nil
  | @cons _ d _ ds _ hds =>
    exact ⟨d, ds, hlead, congrArg Nat.succ hds.length_eq.symm, ofDigits_eq r.base (d :: ds)⟩

theorem Reads.lt_pow (h : r.Reads cs value rest) (hbase : 1 < r.base) :
    value < r.base ^ r.most := by
  obtain ⟨ds, hds, rfl⟩ := h.digits
  have hlt : ∀ d ∈ ds, d < r.base := ((List.forall₂_and_left ds cs).1 hds.flip).1
  calc
    Nat.ofDigits r.base ds.reverse < r.base ^ ds.reverse.length :=
      Nat.ofDigits_lt_base_pow_length hbase fun d hd => hlt d (List.mem_reverse.1 hd)
    _ = r.base ^ cs.length := by rw [List.length_reverse, hds.length_eq]
    _ ≤ r.base ^ r.most := Nat.pow_le_pow_right (Nat.zero_lt_of_lt hbase) h.length_le

end Radix

/-! ### Escapes -/

theorem simpleEscape?_eq_some_iff : simpleEscape? c = some byte ↔ (c, byte) ∈ simpleEscapes := by
  constructor
  · intro h
    unfold simpleEscape? at h
    split at h <;> cases h <;> decide
  · intro h
    simp only [simpleEscapes, List.map_cons, List.map_nil, List.mem_cons, List.not_mem_nil,
      or_false, Prod.map_apply, Prod.mk.injEq] at h
    rcases h with h | h | h | h | h | h | h | h | h | h | h <;> obtain ⟨rfl, rfl⟩ := h <;> rfl

theorem simpleEscape?_eq_none_iff : simpleEscape? c = none ↔ ∀ byte, (c, byte) ∉ simpleEscapes := by
  simp only [Option.eq_none_iff_forall_ne_some, ne_eq, simpleEscape?_eq_some_iff]

theorem mem_hexMarks : x ∈ hexMarks ↔ x = 120 ∨ x = 88 := by
  simp only [hexMarks, List.map_cons, List.map_nil, List.mem_cons, List.not_mem_nil, or_false]
  rfl

theorem simpleEscape?_of_isDigit (h : IsDigit 8 c d) : simpleEscape? c = none ∧ c ∉ hexMarks := by
  obtain ⟨hd, rfl | rfl⟩ := h <;> interval_cases d <;> decide

theorem escape?_octal (h : octal.Reads cs value rest) :
    escape? (cs ++ rest) = if 255 < value then none else some (value.toUInt8, cs.length) := by
  obtain ⟨d, ds, hlead, hlength, rfl⟩ := h.exists_leadingDigits fun _ _ => octalDigit?_eq_some_iff
  obtain ⟨_, hds, -⟩ := h.digits
  cases hds with
  | nil => exact absurd rfl h.ne_nil
  | @cons c _ cs _ hc _ =>
    obtain ⟨hsimple, hmark⟩ := simpleEscape?_of_isDigit hc
    have hlead' : leadingDigits octalDigit? 3 (c :: (cs ++ rest)) = d :: ds := hlead
    simp only [List.cons_append, escape?, hsimple, mt mem_hexMarks.2 hmark, if_false, hlead',
      List.isEmpty_cons, Bool.false_eq_true, false_or, hlength]
    rfl

theorem escape?_hexadecimal (hx : x ∈ hexMarks) (h : (hexadecimal x).Reads cs value rest) :
    escape? (x :: cs ++ rest) = some (value.toUInt8, (x :: cs).length) := by
  obtain ⟨d, ds, hlead, hlength, rfl⟩ := h.exists_leadingDigits fun _ _ => hexDigit?_eq_some_iff
  have hlead' : leadingDigits hexDigit? 2 (cs ++ rest) = d :: ds := hlead
  have hsimple : simpleEscape? x = none := by
    obtain rfl | rfl := mem_hexMarks.1 hx <;> rfl
  simp only [List.cons_append, escape?, hsimple, mem_hexMarks.1 hx, if_true, hlead',
    List.isEmpty_cons, Bool.false_eq_true, if_false, hlength, List.length_cons, Nat.add_comm 1]
  rfl

/-! ### Texts -/

theorem unescape?_of_ne (h : c ≠ backslash) :
    unescape? (c :: rest) = (unescape? rest).map (c :: ·) := by
  rw [unescape?, if_pos h]

theorem unescape?_of_escape (h : escape? (t ++ rest) = some (byte, t.length)) :
    unescape? (backslash :: (t ++ rest)) = (unescape? rest).map (byte :: ·) := by
  rw [unescape?, if_neg (not_not_intro rfl), h]
  simp only [List.drop_left]

theorem unescape?_of_escape_none (h : escape? rest = none) :
    unescape? (backslash :: rest) = none := by
  rw [unescape?, if_neg (not_not_intro rfl), h]

/-- A spelling is read as its byte, and reading goes on behind it. -/
theorem Spells.unescape? (h : Spells rest byte t) :
    unescape? (t ++ rest) = (unescape? rest).map (byte :: ·) := by
  cases h with
  | itself hne => exact unescape?_of_ne hne
  | @simple c _ hmem =>
    have hescape : escape? ([c] ++ rest) = some (byte, 1) := by
      simp only [List.singleton_append, escape?, simpleEscape?_eq_some_iff.2 hmem]
    exact unescape?_of_escape hescape
  | @number r cs _ hr hreads =>
    rw [List.cons_append]
    refine unescape?_of_escape ?_
    -- only octal digits can be too many for a byte, and here they are those of one
    obtain rfl | hmark := List.mem_cons.1 hr
    · have hlt : ¬255 < byte.toNat := Nat.not_lt.2 (Nat.le_of_lt_succ byte.toNat_lt)
      rw [show octal.mark ++ cs = cs from rfl, escape?_octal hreads, if_neg hlt,
        Nat.toUInt8, UInt8.ofNat_toNat]
    · obtain ⟨x, hx, rfl⟩ := List.mem_map.1 hmark
      rw [show (hexadecimal x).mark ++ cs = x :: cs from rfl, escape?_hexadecimal hx hreads,
        Nat.toUInt8, UInt8.ofNat_toNat]

theorem SpellsAll.unescape? (h : SpellsAll bytes text) : unescape? text = some bytes := by
  induction h with
  | nil => rw [Text.unescape?]
  | cons hspells _ ih => rw [hspells.unescape?, ih, Option.map_some]

theorem Flawed.unescape? (h : Flawed text) : unescape? text = none := by
  induction h with
  | trailing => exact unescape?_of_escape_none rfl
  | @unknown c rest hsimple hmark hdigit =>
    refine unescape?_of_escape_none ?_
    have hoctal : octalDigit? c = none :=
      Option.eq_none_iff_forall_ne_some.2 fun d hd => hdigit d (octalDigit?_eq_some_iff.1 hd)
    simp only [escape?, simpleEscape?_eq_none_iff.2 hsimple, mt mem_hexMarks.2 hmark, if_false,
      leadingDigits, hoctal, List.isEmpty_nil, true_or, if_true]
  | @noDigit x rest hx hstop =>
    refine unescape?_of_escape_none ?_
    have hlead : leadingDigits hexDigit? 2 rest = [] :=
      leadingDigits_append (fun _ _ => hexDigit?_eq_some_iff) .nil (Nat.zero_le 2) fun _ => hstop
    have hsimple : simpleEscape? x = none := by
      obtain rfl | rfl := mem_hexMarks.1 hx <;> rfl
    simp only [escape?, hsimple, mem_hexMarks.1 hx, if_true, hlead, List.isEmpty_nil]
  | tooLarge hreads hlt =>
    refine unescape?_of_escape_none ?_
    rw [escape?_octal hreads, if_pos hlt]
  | behind hspells _ ih => rw [hspells.unescape?, ih, Option.map_none]

theorem Radix.Reads.spells {r : Radix} (hr : r ∈ radices) (h : r.Reads cs value rest)
    (hle : value ≤ 255) : Spells rest value.toUInt8 (backslash :: (r.mark ++ cs)) := by
  refine .number hr ?_
  rwa [Nat.toUInt8, UInt8.toNat_ofNat_of_lt' (Nat.lt_of_le_of_lt hle (by decide))]

theorem spells_or_flawed_octal (hd : IsDigit 8 c d) (text : Bytes) :
    (∃ byte t rest, backslash :: c :: text = t ++ rest ∧ Spells rest byte t) ∨
      Flawed (backslash :: c :: text) := by
  obtain ⟨cs, value, rest, heq, hreads⟩ := @Radix.exists_reads c d octal (Nat.succ_pos 2) hd text
  rw [heq]
  by_cases hlt : 255 < value
  · exact .inr (.tooLarge hreads hlt)
  · exact .inl ⟨_, _, rest, rfl, hreads.spells List.mem_cons_self (Nat.le_of_not_lt hlt)⟩

theorem exists_spells_hexadecimal (hx : x ∈ hexMarks) (hd : IsDigit 16 c d) (text : Bytes) :
    ∃ byte t rest, backslash :: x :: c :: text = t ++ rest ∧ Spells rest byte t := by
  obtain ⟨cs, value, rest, heq, hreads⟩ :=
    @Radix.exists_reads c d (hexadecimal x) (Nat.succ_pos 1) hd text
  have hlt : value < 16 ^ 2 := hreads.lt_pow (by decide : 1 < 16)
  have hmem : hexadecimal x ∈ radices := List.mem_cons_of_mem _ (List.mem_map_of_mem hx)
  rw [heq]
  exact ⟨_, _, rest, rfl, hreads.spells hmem (Nat.le_of_lt_succ hlt)⟩

/-- A text starts with a spelling or has a flaw. -/
theorem exists_spells_or_flawed (c : UInt8) (text : Bytes) :
    (∃ byte t rest, c :: text = t ++ rest ∧ Spells rest byte t) ∨ Flawed (c :: text) := by
  by_cases hc : c = backslash
  case neg => exact .inl ⟨c, [c], text, rfl, .itself hc⟩
  subst hc
  obtain _ | ⟨c, text⟩ := text
  · exact .inr .trailing
  by_cases hsimple : ∃ byte, (c, byte) ∈ simpleEscapes
  · obtain ⟨byte, hmem⟩ := hsimple
    exact .inl ⟨byte, [backslash, c], text, rfl, .simple hmem⟩
  by_cases hmark : c ∈ hexMarks
  · obtain _ | ⟨first, text⟩ := text
    · exact .inr (.noDigit hmark fun _ h => nomatch h)
    by_cases hdigit : ∃ d, IsDigit 16 first d
    · obtain ⟨d, hd⟩ := hdigit
      exact .inl (exists_spells_hexadecimal hmark hd text)
    · exact .inr (.noDigit hmark fun _ h => by cases h; exact not_exists.1 hdigit)
  by_cases hdigit : ∃ d, IsDigit 8 c d
  · obtain ⟨d, hd⟩ := hdigit
    exact spells_or_flawed_octal hd text
  · exact .inr (.unknown (not_exists.1 hsimple) hmark (not_exists.1 hdigit))

theorem exists_spellsAll_or_flawed (text : Bytes) :
    (∃ bytes, SpellsAll bytes text) ∨ Flawed text := by
  match text with
  | [] => exact .inl ⟨[], .nil⟩
  | c :: text =>
    obtain ⟨byte, t, rest, heq, hspells⟩ | hflawed := exists_spells_or_flawed c text
    case inr => exact .inr hflawed
    -- a spelling has characters, so that what is behind it is shorter
    have hlength : rest.length < (c :: text).length := by
      have := List.length_pos_of_ne_nil hspells.ne_nil
      rw [heq, List.length_append]
      omega
    rw [heq]
    obtain ⟨bytes, hbytes⟩ | hflawed := exists_spellsAll_or_flawed rest
    · exact .inl ⟨byte :: bytes, .cons hspells hbytes⟩
    · exact .inr (.behind hspells hflawed)
termination_by text.length
decreasing_by exact hlength

/-! ### Escaping -/

/-- The letters that schema compilers use. -/
def cEscapes : List (UInt8 × UInt8) :=
  [('n', '\n'), ('r', '\r'), ('t', '\t'), ('"', '"'), ('\'', '\''), ('\\', '\\')].map
    (Prod.map Char.toUInt8 Char.toUInt8)

/-- The spelling that schema compilers choose for a byte. -/
def cEscapeByte (byte : UInt8) : Bytes :=
  match cEscapes.find? (·.2 = byte) with
  | some (letter, _) => [backslash, letter]
  | none =>
    if byte < 0x20 ∨ 0x7f ≤ byte then
      backslash :: [byte.toNat / 64, byte.toNat / 8 % 8, byte.toNat % 8].map
        fun d => (Nat.digitChar d).toUInt8
    else [byte]

def cEscape (bytes : Bytes) : Bytes :=
  bytes.flatMap cEscapeByte

/-- Three octal digits are the most there may be, so that it does not matter what follows them. -/
theorem reads_octal (byte : UInt8) (rest : Bytes) :
    octal.Reads ([byte.toNat / 64, byte.toNat / 8 % 8, byte.toNat % 8].map
      fun d => (Nat.digitChar d).toUInt8) byte.toNat rest := by
  have hlt : byte.toNat < 256 := byte.toNat_lt
  have hdigit {d : Nat} (h : d < 8) : IsDigit 8 (Nat.digitChar d).toUInt8 d := ⟨h, .inl rfl⟩
  refine ⟨⟨_, .cons (hdigit ?_) (.cons (hdigit ?_) (.cons (hdigit ?_) .nil)), ?_⟩, nofun,
    Nat.le_refl 3, fun h => absurd h (Nat.lt_irrefl 3)⟩
  iterate 3 omega
  simp only [octal, List.reverse_cons, List.reverse_nil, List.nil_append, List.cons_append,
    Nat.ofDigits_cons, Nat.ofDigits_nil]
  omega

theorem spells_cEscapeByte (byte : UInt8) (rest : Bytes) : Spells rest byte (cEscapeByte byte) := by
  unfold cEscapeByte
  split
  case h_1 letter shown hfind =>
    have hshown := List.find?_some hfind
    obtain rfl : shown = byte := of_decide_eq_true hshown
    have hsub : cEscapes ⊆ simpleEscapes := by decide
    exact .simple (hsub (List.mem_of_find?_eq_some hfind))
  case h_2 hfind =>
    split
    · exact .number List.mem_cons_self (reads_octal byte rest)
    · refine .itself ?_
      rintro rfl
      cases hfind

theorem spellsAll_cEscape (bytes : Bytes) : SpellsAll bytes (cEscape bytes) := by
  induction bytes with
  | nil => exact .nil
  | cons byte bytes ih => exact .cons (spells_cEscapeByte byte (cEscape bytes)) ih

/-- Unescaping yields bytes from their spellings alone, among them the spelling that schema
compilers choose, and nothing from the texts with a flaw alone. -/
theorem unescaped_as_spelled :
    (∀ text bytes, unescape? text = some bytes ↔ SpellsAll bytes text) ∧
      (∀ bytes, unescape? (cEscape bytes) = some bytes) ∧
      ∀ text, unescape? text = none ↔ Flawed text := by
  refine ⟨fun text bytes => ⟨fun h => ?_, SpellsAll.unescape?⟩,
    fun bytes => (spellsAll_cEscape bytes).unescape?, fun text => ⟨fun h => ?_, Flawed.unescape?⟩⟩
  · obtain ⟨bytes', hbytes⟩ | hflawed := exists_spellsAll_or_flawed text
    · cases h.symm.trans hbytes.unescape?
      exact hbytes
    · cases h.symm.trans hflawed.unescape?
  · obtain ⟨bytes, hbytes⟩ | hflawed := exists_spellsAll_or_flawed text
    · cases h.symm.trans hbytes.unescape?
    · exact hflawed

end ProtoWire.Text
