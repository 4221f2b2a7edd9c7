import ProtoWire.Text.Blank
import ProtoWire.Text.IdentifierChar

/-!
# Literals in source text

Every function that ends in `Length?` takes the characters from some place on. It answers how many
of them belong to what it reads, if that stands in front.
-/

namespace ProtoWire.Source

def nameLength : List Char → Nat
  | [] => 0
  | c :: rest =>
    if Text.isIdentifierStart c then (rest.takeWhile Text.isIdentifierPart).length + 1 else 0

def hexValue? (c : Char) : Option Nat :=
  if c.isDigit then some (c.toNat - 48)
  else if 'a' ≤ c && c ≤ 'f' then some (c.toNat - 87)
  else if 'A' ≤ c && c ≤ 'F' then some (c.toNat - 55)
  else none

/-! ### Quoted literals -/

/-- What may stand between quotes. -/
structure QuoteRules where
  /-- Whether a character may stand for itself. -/
  plain : Char → Bool
  /-- Whether a byte may be escaped by its two digits. -/
  byte : Nat → Bool
  /-- Whether a character may be escaped by its code point. -/
  code : Nat → Bool
  /-- Whether the null character has an escape of one letter. -/
  zero : Bool

namespace QuoteRules

def text : QuoteRules :=
  { plain := fun _ => true, byte := (· < 128), code := fun n => n.isValidChar, zero := true }

def bytes : QuoteRules :=
  { plain := fun c => c.toNat < 128, byte := fun _ => true, code := fun _ => false, zero := true }

/-- The rules of text that ends with a null character, and so has no other. -/
def terminated : QuoteRules :=
  { plain := fun c => c.toNat != 0, byte := (· != 0), code := fun n => n != 0 && n.isValidChar,
    zero := false }

end QuoteRules

/-- The digits of a code point, at most six and perhaps with underscores, and the bracket behind
them. -/
def codePointLength? (allowed : Nat → Bool) : (value digits : Nat) → List Char → Option Nat
  | _, _, [] => none
  | value, digits, c :: rest =>
    match hexValue? c with
    | some d =>
      if digits = 6 then none
      else (codePointLength? allowed (16 * value + d) (digits + 1) rest).map (· + 1)
    | none =>
      if digits = 0 then none
      else if c == '_' then (codePointLength? allowed value digits rest).map (· + 1)
      else if c == '\x7d' && allowed value then some 1
      else none

variable (rules : QuoteRules)

def escapeLength? : List Char → Option Nat
  | 'x' :: high :: low :: _ => do
    let high ← hexValue? high
    let low ← hexValue? low
    if rules.byte (16 * high + low) then some 3 else none
  | 'u' :: '\x7b' :: rest => (codePointLength? rules.code 0 0 rest).map (· + 2)
  | c :: _ =>
    if ['n', 'r', 't', '\\', '"'].contains c || c.toNat == 39 || (c == '0' && rules.zero) then
      some 1
    else none
  | [] => none

/-- The end of a line and the blanks at the start of the next ones. More has to follow. -/
def lineEndLength? : List Char → Option Nat
  | '\r' :: '\n' :: rest => (lineEndLength? rest).map (· + 2)
  | '\r' :: _ => none
  | c :: rest =>
    if [' ', '\t', '\n'].contains c then (lineEndLength? rest).map (· + 1) else some 0
  | [] => none

/-- A text up to its closing quote and the name behind it. Every step takes a character, hence the
fuel. -/
def quoteLength? : (fuel : Nat) → List Char → Option Nat
  | _ + 1, '"' :: rest => some (nameLength rest + 1)
  | fuel + 1, '\r' :: '\n' :: rest => (quoteLength? fuel rest).map (· + 2)
  | fuel + 1, '\\' :: rest => do
    let escape ←
      if rest.head? == some '\n' || rest.head? == some '\r' then lineEndLength? rest
      else escapeLength? rules rest
    return (← quoteLength? fuel (rest.drop escape)) + escape + 1
  | fuel + 1, c :: rest =>
    if c != '\r' && rules.plain c then (quoteLength? fuel rest).map (· + 1) else none
  | _, _ => none

/-- A text up to a quote with as many hashes behind it as stood before the opening one, and the name
behind them. -/
def rawQuoteLength? (hashes : Nat) : List Char → Option Nat
  | '\r' :: '\n' :: rest => (rawQuoteLength? hashes rest).map (· + 2)
  | c :: rest =>
    if c == '"' && rest.take hashes == List.replicate hashes '#' then
      some (nameLength (rest.drop hashes) + hashes + 1)
    else if c != '\r' && rules.plain c then (rawQuoteLength? hashes rest).map (· + 1)
    else none
  | [] => none

def rawStringLength? (chars : List Char) : Option Nat :=
  let hashes := (chars.takeWhile (· == '#')).length
  match chars.drop hashes with
  | '"' :: rest =>
    if hashes ≤ 255 then (rawQuoteLength? rules hashes rest).map (· + hashes + 1) else none
  | _ => none

/-- A quoted string, from behind its quote. A bound on its length is looked up only here. -/
def quotedLength? (chars : List Char) : Option Nat :=
  quoteLength? rules chars.length chars

def stringLength? : List Char → Option Nat
  | '"' :: rest => (quotedLength? .text rest).map (· + 1)
  | 'r' :: rest => (rawStringLength? .text rest).map (· + 1)
  | 'b' :: '"' :: rest => (quotedLength? .bytes rest).map (· + 2)
  | 'b' :: 'r' :: rest => (rawStringLength? .bytes rest).map (· + 2)
  | 'c' :: '"' :: rest => (quotedLength? .terminated rest).map (· + 2)
  | 'c' :: 'r' :: rest => (rawStringLength? .terminated rest).map (· + 2)
  | _ => none

def startsTick (chars : List Char) : Bool :=
  chars.head?.any (·.toNat == 39)

/-- One character, the closing tick and the name behind it, from behind the opening tick. -/
def tickedLength? (chars : List Char) : Option Nat := do
  let inner ← match chars with
    | '\\' :: rest => (escapeLength? rules rest).map (· + 1)
    | c :: _ => if rules.plain c then some 1 else none
    | [] => none
  let behind := chars.drop inner
  if startsTick behind then some (nameLength behind.tail + inner + 1) else none

/-- A character literal, of text or of a byte. -/
def characterLength? (chars : List Char) : Option Nat :=
  match chars with
  | 'b' :: rest => if startsTick rest then (tickedLength? .bytes rest.tail).map (· + 2) else none
  | _ => if startsTick chars then (tickedLength? .text chars.tail).map (· + 1) else none

/-! ### Numbers -/

/-- The exponent of a number, from behind its letter. There is none without digits. -/
def exponentLength? (signed valued : Bool) : List Char → Option Nat
  | [] => if valued then some 0 else none
  | c :: rest =>
    if c.isDigit then (exponentLength? signed true rest).map (· + 1)
    else if c == '_' then (exponentLength? signed valued rest).map (· + 1)
    else if valued then some 0
    else if (c == '+' || c == '-') && !signed then (exponentLength? true false rest).map (· + 1)
    else none

def isDecimalPart (c : Char) : Bool :=
  c.isDigit || c == '_'

def isExponentMark (c : Char) : Bool :=
  c == 'e' || c == 'E'

/-- A number with a point or an exponent. A point before a name or another point is none of its
own. -/
def floatLength? : List Char → Option Nat
  | [] => none
  | first :: rest =>
    if first.isDigit then
      let whole := (rest.takeWhile isDecimalPart).length + 1
      match rest.dropWhile isDecimalPart with
      | '.' :: rest =>
        if rest.head?.any fun c => c == '.' || Text.isIdentifierStart c then none
        else
          let part := (rest.takeWhile isDecimalPart).length
          let exponent := match rest.dropWhile isDecimalPart with
            | mark :: after =>
              if isExponentMark mark then ((exponentLength? false false after).map (· + 1)).getD 0
              else 0
            | [] => 0
          some (whole + 1 + part + exponent)
      | mark :: after =>
        if isExponentMark mark then (exponentLength? false false after).map (· + whole + 1)
        else none
      | [] => none
    else none

/-- The digits of a number in a base, of which there has been none yet if it is `bare`. -/
def digitsLength? (base : Nat) (bare : Bool) : List Char → Option Nat
  | [] => if bare then none else some 0
  | c :: rest =>
    if c == '_' then
      if bare && base == 10 then none else (digitsLength? base bare rest).map (· + 1)
    else
      match hexValue? c with
      | some d =>
        if d < base then (digitsLength? base false rest).map (· + 1)
        else if c.isDigit || bare then none
        else some 0
      | none => if bare then none else some 0

/-- A whole number. -/
def integerLength? : List Char → Option Nat
  | '0' :: 'x' :: rest => (digitsLength? 16 true rest).map (· + 2)
  | '0' :: 'o' :: rest => (digitsLength? 8 true rest).map (· + 2)
  | '0' :: 'b' :: rest => (digitsLength? 2 true rest).map (· + 2)
  | chars@(c :: _) => if c.isDigit then digitsLength? 10 true chars else none
  | [] => none

/-- A number of a length with the name behind it. No other character of a name may follow. -/
def numberLength? (chars : List Char) (digits : Nat) : Option Nat :=
  let behind := chars.drop digits
  let name := nameLength behind
  if (behind.drop name).head?.any Text.isIdentifierPart then none else some (digits + name)

def literalLength? (chars : List Char) : Option Nat :=
  stringLength? chars <|> characterLength? chars <|>
    (floatLength? chars).bind (numberLength? chars) <|>
    (integerLength? chars).bind (numberLength? chars)

/-! ### Kinds and values -/

inductive LiteralKind where
  | text
  | bytes
  | character
  | integer
  | float
  | truth
  | other
deriving DecidableEq

/-- Whether a number in a text is written as a whole one, whatever the name behind it. An exponent
makes it none, unless it is part of the name. -/
def isWhole (chars : List Char) : Bool :=
  match chars with
  | '0' :: c :: _ => if ['x', 'o', 'b'].contains c then true else decimal chars
  | _ => decimal chars
where
  decimal (chars : List Char) : Bool :=
    match chars.dropWhile isDecimalPart with
    | '.' :: _ => false
    | c :: rest => !(isExponentMark c && (exponentLength? false false rest).isSome)
    | [] => true

def literalKind (text : String) : LiteralKind :=
  let chars := text.toList
  match chars with
  | '"' :: _ | 'r' :: '"' :: _ | 'r' :: '#' :: _ => .text
  | 't' :: _ | 'f' :: _ => .truth
  | 'b' :: rest => if startsTick rest then .character else .bytes
  | 'c' :: _ => .bytes
  | c :: _ =>
    if c.isDigit then if isWhole chars then .integer else .float
    else if startsTick chars then .character
    else .other
  | [] => .other

/-- The character of an escape, from behind its backslash, and what is left behind it. -/
def unescape? : List Char → Option (Char × List Char)
  | 'x' :: high :: low :: rest => do
    return (Char.ofNat (16 * (← hexValue? high) + (← hexValue? low)), rest)
  | 'u' :: '\x7b' :: rest =>
    let digits := (rest.takeWhile (· != '\x7d')).filterMap hexValue?
    some (Char.ofNat (digits.foldl (fun n d => 16 * n + d) 0),
      (rest.dropWhile (· != '\x7d')).tail)
  | 'n' :: rest => some ('\n', rest)
  | 'r' :: rest => some ('\r', rest)
  | 't' :: rest => some ('\t', rest)
  | '0' :: rest => some ('\x00', rest)
  | c :: rest => some (c, rest)
  | [] => none

/-- The characters of a text between quotes. Every step takes a character, hence the fuel. -/
def quotedText : (fuel : Nat) → List Char → List Char
  | fuel + 1, '\r' :: '\n' :: rest => '\n' :: quotedText fuel rest
  | fuel + 1, '\\' :: rest =>
    if rest.head? == some '\n' || rest.head? == some '\r' then
      quotedText fuel (rest.dropWhile Text.isBlank)
    else
      match unescape? rest with
      | some (c, rest) => c :: quotedText fuel rest
      | none => []
  | _ + 1, '"' :: _ => []
  | fuel + 1, c :: rest => c :: quotedText fuel rest
  | _, _ => []

def literalText? (text : String) : Option String :=
  match text.toList with
  | '"' :: rest => some (String.ofList (quotedText rest.length rest))
  | 'r' :: rest =>
    let hashes := (rest.takeWhile (· == '#')).length
    let behind := (rest.drop hashes).tail
    some (String.ofList (((behind.reverse.dropWhile (· != '"')).drop 1).reverse))
  | _ => none

/-- The number of a field without name, by its spelling: a whole number that fits 32 bits, without a
name behind it. -/
def memberIndex? (text : String) : Option Nat := do
  let chars := text.toList
  if (literalKind text != .integer) then none
  else
    let (base, digits) := match chars with
      | '0' :: 'x' :: rest => (16, rest)
      | '0' :: 'o' :: rest => (8, rest)
      | '0' :: 'b' :: rest => (2, rest)
      | _ => (10, chars)
    let values ← (digits.filter (· != '_')).mapM hexValue?
    if values.any (base ≤ ·) then none
    else
      let value := values.foldl (fun n d => base * n + d) 0
      if value < UInt32.size then some value else none

end ProtoWire.Source
