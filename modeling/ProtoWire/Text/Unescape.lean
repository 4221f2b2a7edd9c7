import ProtoWire.Varint.Basic

/-!
# Escaped bytes

Bytes are spelled as themselves or behind a backslash: by a letter, by up to three octal digits, or
by up to two hexadecimal digits.
-/

namespace ProtoWire.Text

def backslash : UInt8 := 92

/-- The byte that a single letter spells. -/
def simpleEscape? : UInt8 → Option UInt8
  | 110 => some 10 -- n
  | 114 => some 13 -- r
  | 116 => some 9 -- t
  | 97 => some 7 -- a
  | 98 => some 8 -- b
  | 102 => some 12 -- f
  | 118 => some 11 -- v
  | 63 => some 63 -- question mark
  | 92 => some 92 -- backslash
  | 39 => some 39 -- apostrophe
  | 34 => some 34 -- quote
  | _ => none

def octalDigit? (byte : UInt8) : Option Nat :=
  if 48 ≤ byte ∧ byte ≤ 55 then some (byte.toNat - 48) else none

def hexDigit? (byte : UInt8) : Option Nat :=
  if 48 ≤ byte ∧ byte ≤ 57 then some (byte.toNat - 48)
  else if 97 ≤ byte ∧ byte ≤ 102 then some (byte.toNat - 87)
  else if 65 ≤ byte ∧ byte ≤ 70 then some (byte.toNat - 55)
  else none

/-- The values of the digits that bytes start with, no more than `count`. -/
def leadingDigits (digit? : UInt8 → Option Nat) : (count : Nat) → Bytes → List Nat
  | 0, _ | _, [] => []
  | count + 1, byte :: rest =>
    match digit? byte with
    | some d => d :: leadingDigits digit? count rest
    | none => []

def ofDigits (base : Nat) (digits : List Nat) : Nat :=
  digits.foldl (fun value d => base * value + d) 0

/-- The byte that the bytes after a backslash spell, and how many of them. -/
def escape? : Bytes → Option (UInt8 × Nat)
  | [] => none
  | c :: rest =>
    match simpleEscape? c with
    | some byte => some (byte, 1)
    | none =>
      if c = 120 ∨ c = 88 then
        let digits := leadingDigits hexDigit? 2 rest
        if digits.isEmpty then none else some ((ofDigits 16 digits).toUInt8, 1 + digits.length)
      else
        let digits := leadingDigits octalDigit? 3 (c :: rest)
        if digits.isEmpty ∨ 255 < ofDigits 8 digits then none
        else some ((ofDigits 8 digits).toUInt8, digits.length)

/-- The bytes that a spelling stands for, unless it has an escape that spells none. -/
def unescape? : Bytes → Option Bytes
  | [] => some []
  | c :: rest =>
    if c ≠ backslash then (unescape? rest).map (c :: ·)
    else
      match escape? rest with
      | some (byte, length) => (unescape? (rest.drop length)).map (byte :: ·)
      | none => none
termination_by spelling => spelling.length
decreasing_by
  · simp
  · simp only [List.length_drop, List.length_cons]
    omega

end ProtoWire.Text
