import ProtoWire.Varint.Basic

/-!
# Text of any bytes

* `decodeLossy`: the characters of bytes that are UTF-8, with a replacement for each part that is
  not. Such a part is as long as it could still be the start of a character.
-/

namespace ProtoWire.Text

/-- How many bytes follow a first byte of several, the bounds of the second byte, and the bits that
the first byte adds. -/
def leadByte? (first : UInt8) : Option (Nat × UInt8 × UInt8 × Nat) :=
  if 0xC2 ≤ first ∧ first ≤ 0xDF then some (1, 0x80, 0xBF, first.toNat - 0xC0)
  else if first = 0xE0 then some (2, 0xA0, 0xBF, 0)
  else if first = 0xED then some (2, 0x80, 0x9F, 0xD)
  else if 0xE1 ≤ first ∧ first ≤ 0xEF then some (2, 0x80, 0xBF, first.toNat - 0xE0)
  else if first = 0xF0 then some (3, 0x90, 0xBF, 0)
  else if 0xF1 ≤ first ∧ first ≤ 0xF3 then some (3, 0x80, 0xBF, first.toNat - 0xF0)
  else if first = 0xF4 then some (3, 0x80, 0x8F, 4)
  else none

/-- The bytes of a character after the first one, up to `count` of them, as far as they fit. -/
def continuation (low high : UInt8) : (count : Nat) → Bytes → Bytes
  | 0, _ | _, [] => []
  | count + 1, byte :: rest =>
    if low ≤ byte ∧ byte ≤ high then byte :: continuation 0x80 0xBF count rest else []

/-- The character that stands for bytes that are none. -/
def replacement : Char := Char.ofNat 0xFFFD

/-- The character at the start of some bytes after a first one, and how many of them it takes. -/
def decodeChar (first : UInt8) (rest : Bytes) : Char × Nat :=
  if first < 0x80 then (Char.ofNat first.toNat, 0)
  else
    match leadByte? first with
    | none => (replacement, 0)
    | some (count, low, high, bits) =>
      let found := continuation low high count rest
      let code := found.foldl (fun code byte => 64 * code + (byte.toNat - 0x80)) bits
      (if found.length = count then Char.ofNat code else replacement, found.length)

/-- The characters of bytes, with a replacement for each part that is not UTF-8. -/
def decodeLossy : Bytes → List Char
  | [] => []
  | first :: rest =>
    let (c, taken) := decodeChar first rest
    c :: decodeLossy (rest.drop taken)
termination_by bytes => bytes.length
decreasing_by simp only [List.length_drop, List.length_cons]; omega

end ProtoWire.Text
