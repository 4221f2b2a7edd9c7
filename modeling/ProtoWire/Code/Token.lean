import ProtoWire.Code.Tree
import ProtoWire.Text.Quoted

/-!
# Tokens of generated code

Code is written token by token, without regard to lines.
-/

namespace ProtoWire.Code

open Source (Token bracketed words)

def parens (inner : List Token) : List Token :=
  bracketed .round inner

def brackets (inner : List Token) : List Token :=
  bracketed .square inner

def braces (inner : List Token) : List Token :=
  bracketed .curly inner

/-- Lists of tokens with commas between them, and perhaps one more behind the last. -/
def commaList (trailing : Bool) : List (List Token) → List Token
  | [] => []
  | [tokens] => tokens ++ (if trailing then [.plain ","] else [])
  | tokens :: rest => tokens ++ .plain "," :: commaList trailing rest

def commaSeparated (lists : List (List Token)) : List Token :=
  commaList false lists

def commaTerminated (lists : List (List Token)) : List Token :=
  lists.flatMap (· ++ [.plain ","])

/-! ### Parts without subtrees -/

def UnaryOp.text : UnaryOp → String
  | not => "!"
  | negate => "-"
  | deref => "*"

def BinaryOp.text : BinaryOp → String
  | add => "+"
  | mul => "*"
  | div => "/"
  | bitAnd => "&"
  | and => "&&"
  | or => "||"
  | eq => "=="
  | ne => "!="
  | addAssign => "+="
  | orAssign => "|="
  | andAssign => "&="

/-- The tokens before the first segment of a path. -/
def rootTokens (rooted : Bool) : List Token :=
  if rooted then [.plain "::"] else []

/-! ### Types and paths -/

mutual

def Ty.tokens : Ty → List Token
  | .named rooted segments => rootTokens rooted ++ segmentsTokens segments
  | .reference lifetime isMut target =>
    .plain "&" :: words lifetime.toList ++ (if isMut then [.plain "mut"] else []) ++ target.tokens
  | .slice element => brackets element.tokens
  | .array element length => brackets (element.tokens ++ words [";", toString length])
  | .unit => parens []

def segmentsTokens : List Segment → List Token
  | [] => []
  | [s] => s.tokens
  | s :: rest => s.tokens ++ .plain "::" :: segmentsTokens rest

def Segment.tokens : Segment → List Token
  | .name name => [.plain name]
  | .generic name glued args =>
    words [name, "<"] ++ commaSeparated (genericArgsTokens args) ++
      [if glued then .opening ">" else .plain ">"]
  | .spelled tokens => tokens

def genericArgsTokens : List GenericArg → List (List Token)
  | [] => []
  | arg :: rest => arg.tokens :: genericArgsTokens rest

def GenericArg.tokens : GenericArg → List Token
  | .lifetime name => [.plain name]
  | .type type => type.tokens

end

def Path.tokens (p : Path) : List Token :=
  rootTokens p.rooted ++ segmentsTokens p.segments

def memberTokens (type through : List Token) (name : String) : List Token :=
  .plain "<" :: type ++ .plain "as" :: through ++ words [">", "::", name]

/-! ### Patterns, expressions and statements -/

mutual

def Pat.tokens : Pat → List Token
  | .wild => [.plain "_"]
  | .binding name => [.plain name]
  | .literal negative text => words (if negative then ["-", text] else [text])
  | .tuple elements => parens (commaSeparated (patsTokens elements))
  | .constructor path elements => path.tokens ++ parens (commaSeparated (patsTokens elements))

def patsTokens : List Pat → List (List Token)
  | [] => []
  | p :: rest => p.tokens :: patsTokens rest

end

def labelTokens : Option String → List Token
  | none => []
  | some label => words [label, ":"]

def Expr.isBlock : Expr → Bool
  | .block none _ => true
  | _ => false

mutual

def Expr.tokens : Expr → List Token
  | .path p => p.tokens
  | .assoc type through name => memberTokens type.tokens through.tokens name
  | .literal text => [.plain text]
  | .unit => parens []
  | .unary op operand => .plain op.text :: operand.tokens
  | .binary op left right => left.tokens ++ .plain op.text :: right.tokens
  | .assign target value => target.tokens ++ .plain "=" :: value.tokens
  | .cast operand type => operand.tokens ++ .plain "as" :: type.tokens
  | .reference isMut operand =>
    .plain "&" :: (if isMut then [.plain "mut"] else []) ++ operand.tokens
  | .paren inner => parens inner.tokens
  | .attempt inner => inner.tokens ++ [.plain "?"]
  | .field base name => base.tokens ++ words [".", name]
  | .index base position => base.tokens ++ brackets [.plain position]
  | .call function args trailing =>
    function.tokens ++ parens (commaList trailing (exprsTokens args))
  | .method receiver name generics args trailing =>
    receiver.tokens ++ words [".", name] ++
      (if generics.isEmpty then []
        else words ["::", "<"] ++ commaSeparated (generics.map Ty.tokens) ++ [.plain ">"]) ++
      parens (commaList trailing (exprsTokens args))
  | .closure params body =>
    (if params.isEmpty then [.plain "||"]
      else .plain "|" :: commaSeparated (params.map Pat.tokens) ++ [.plain "|"]) ++ body.tokens
  | .block label body => labelTokens label ++ braces (stmtsTokens body)
  | .cond test body => .plain "if" :: test.tokens ++ braces (stmtsTokens body)
  | .either test yes no =>
    .plain "if" :: test.tokens ++ braces (stmtsTokens yes) ++ .plain "else" ::
      braces (stmtsTokens no)
  | .fits pattern value => .plain "let" :: pattern.tokens ++ .plain "=" :: value.tokens
  | .select value arms => .plain "match" :: value.tokens ++ braces (armsTokens arms)
  | .loop label body => labelTokens label ++ .plain "loop" :: braces (stmtsTokens body)
  | .during test body => .plain "while" :: test.tokens ++ braces (stmtsTokens body)
  | .each pattern values body =>
    .plain "for" :: pattern.tokens ++ .plain "in" :: values.tokens ++ braces (stmtsTokens body)
  | .leave label => words ("break" :: label.toList)
  | .again label => words ("continue" :: label.toList)
  | .result value => .plain "return" :: value.tokens
  | .record path fields => path.tokens ++ braces (commaTerminated (fieldsTokens fields))
  | .replicate value length => brackets (value.tokens ++ words [";", length])

def exprsTokens : List Expr → List (List Token)
  | [] => []
  | e :: rest => e.tokens :: exprsTokens rest

def fieldsTokens : List (String × Expr) → List (List Token)
  | [] => []
  | (name, value) :: rest => (words [name, ":"] ++ value.tokens) :: fieldsTokens rest

def Stmt.tokens : Stmt → List Token
  | .define isMut name value =>
    words (if isMut then ["let", "mut", name, "="] else ["let", name, "="]) ++ value.tokens ++
      [.plain ";"]
  | .expr value semicolon => value.tokens ++ (if semicolon then [.plain ";"] else [])
  | .check test message =>
    words ["assert", "!"] ++
      parens (test.tokens ++ words [",", Text.literal message]) ++ [.plain ";"]
  | .shared name type value =>
    words ["static", name, ":"] ++ type.tokens ++ .plain "=" :: value.tokens ++ [.plain ";"]

def stmtsTokens : List Stmt → List Token
  | [] => []
  | s :: rest => s.tokens ++ stmtsTokens rest

def Arm.tokens : Arm → List Token
  | .mk pattern body =>
    pattern.tokens ++ .plain "=>" :: body.tokens ++ (if body.isBlock then [] else [.plain ","])

def armsTokens : List Arm → List Token
  | [] => []
  | a :: rest => a.tokens ++ armsTokens rest

end

/-! ### Declarations -/

/-- The tokens of an attribute. A comment has its text as a raw literal. -/
def Attribute.tokens : Attribute → List Token
  | .doc text => .plain "#" :: brackets (words ["doc", "=", "r\" " ++ text ++ "\""])
  | .flag name => .plain "#" :: brackets [.plain name]
  | .list name args =>
    .plain "#" :: brackets (.plain name :: parens (commaSeparated (args.map fun a => [.plain a])))

def attributesTokens (attributes : List Attribute) : List Token :=
  attributes.flatMap Attribute.tokens

def Receiver.tokens : Receiver → List Token
  | value => words ["self"]
  | shared => words ["&", "self"]
  | exclusive => words ["&", "mut", "self"]

def Function.tokens (f : Function) : List Token :=
  attributesTokens f.attributes ++
    words (if f.isPublic then ["pub", "fn", f.name] else ["fn", f.name])
    ++ (if f.generics.isEmpty then []
      else .plain "<" ::
        commaSeparated (f.generics.map fun (name, bound) => words [name, ":"] ++ bound.tokens) ++
          [.plain ">"])
    ++ parens (commaList f.trailingComma
      ((f.receiver.map Receiver.tokens).toList ++
        f.params.map fun (name, type) => words [name, ":"] ++ type.tokens))
    ++ (match f.result with
      | some type => .plain "->" :: type.tokens
      | none => [])
    ++ braces (stmtsTokens f.body)

def Member.tokens : Member → List Token
  | function f => f.tokens
  | constant name type value =>
    words ["pub", "const", name, ":"] ++ type.tokens ++ .plain "=" :: value.tokens ++ [.plain ";"]

/-- The tokens of an integer, whose sign is a token of its own. -/
def intTokens (value : Int) : List Token :=
  words (if value < 0 then ["-", toString value.natAbs] else [toString value.natAbs])

mutual

def Item.tokens : Item → List Token
  | .struct attributes name fields =>
    attributesTokens attributes ++ words ["pub", "struct", name] ++
      braces (commaTerminated (fields.map fun (field, type) => words [field, ":"] ++ type.tokens))
  | .enum attributes name variants =>
    attributesTokens attributes ++ words ["pub", "enum", name] ++
      braces (commaSeparated (variants.map fun (variant, number) =>
        words [variant, "="] ++ intTokens number))
  | .implementation attributes through type members =>
    attributesTokens attributes ++ .plain "impl" ::
      (match through with
        | some path => path.tokens ++ [.plain "for"]
        | none => []) ++ type.tokens ++ braces (members.flatMap Member.tokens)
  | .submodule name items => words ["pub", "mod", name] ++ braces (itemsTokens items)

def itemsTokens : List Item → List Token
  | [] => []
  | i :: rest => i.tokens ++ itemsTokens rest

end

end ProtoWire.Code
