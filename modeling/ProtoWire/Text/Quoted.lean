import ProtoWire.Text.Printable
import ProtoWire.Wire.Datum

/-!
# Quoted text

* `quoted`: a text in quotes, as it is shown in a list.
* `literal`, `bytesLiteral`: a text, or bytes, as a literal of a program. A zero before an octal
  digit is spelled with two hexadecimal digits there, lest it look like an octal escape.
-/

namespace ProtoWire.Text

/-- The hexadecimal digits of a number, in small letters. -/
def hexDigits (n : Nat) : List Char :=
  Nat.toDigits 16 n

def codeEscape (c : Char) : List Char :=
  ['\\', 'u', '\x7b'] ++ hexDigits c.toNat ++ ['\x7d']

/-- A character as it stands in a quoted text. -/
def escaped (c : Char) : List Char :=
  if c == '\x00' then ['\\', '0']
  else if c == '\t' then ['\\', 't']
  else if c == '\r' then ['\\', 'r']
  else if c == '\n' then ['\\', 'n']
  else if c == '\\' || c == '"' then ['\\', c]
  else if isExtending c || !isPrintable c then codeEscape c
  else [c]

def quoted (text : String) : String :=
  String.ofList ('"' :: text.toList.flatMap escaped ++ ['"'])

def isOctalDigit (c : Char) : Bool :=
  '0' ≤ c && c ≤ '7'

/-- The characters of a literal, from a character and those after it. -/
def literalChars : List Char → List Char
  | [] => []
  | c :: rest =>
    (if c == '\x00' && rest.head?.any isOctalDigit then ['\\', 'x', '0', '0'] else escaped c) ++
      literalChars rest

def literal (text : String) : String :=
  String.ofList ('"' :: literalChars text.toList ++ ['"'])

def byteEscape (byte : UInt8) : List Char :=
  let digit (n : Nat) : Char := Char.toUpper (Nat.digitChar n)
  ['\\', 'x', digit (byte.toNat / 16), digit (byte.toNat % 16)]

def escapedByte (byte : UInt8) : List Char :=
  let c := Char.ofNat byte.toNat
  if c == '\x00' then ['\\', '0']
  else if c == '\t' then ['\\', 't']
  else if c == '\r' then ['\\', 'r']
  else if c == '\n' then ['\\', 'n']
  else if c == '\\' || c == '"' then ['\\', c]
  else if ' ' ≤ c && c ≤ '~' then [c]
  else byteEscape byte

def bytesLiteralChars : Bytes → List Char
  | [] => []
  | byte :: rest =>
    (if byte == 0 && rest.head?.any (fun next => isOctalDigit (Char.ofNat next.toNat)) then
      byteEscape byte
    else escapedByte byte) ++ bytesLiteralChars rest

def bytesLiteral (bytes : Bytes) : String :=
  String.ofList ('b' :: '"' :: bytesLiteralChars bytes ++ ['"'])

end ProtoWire.Text
