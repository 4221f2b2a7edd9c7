import ProtoWire.Source.TokenTree

/-!
# Syntax trees

A syntax tree has what matters for the layout of a program: marks and keywords that the place of a
part implies are left out, and so are trailing commas.
-/

namespace ProtoWire.Source

/-- What a block starts with. -/
inductive BlockKind where
  | plain (label : Option String)
  | future (isMove : Bool)
  | constant
  | unchecked
  | attempt

/-- A part of a program. Words in front that never break, such as those of visibility, are kept as
the text of a `head`. -/
inductive Node where
  -- Attributes
  | attributed (attributes : List Node) (node : Node)
  /-- An attribute; an `inner` one is about what it stands in. -/
  | flag (inner : Bool) (path : Node)
  | arguments (inner : Bool) (path : Node) (bracket : Bracket) (body : List TokenTree)
  | setting (inner : Bool) (path : Node) (value : Node)
  -- Paths
  | path (rooted : Bool) (segments : List Node)
  /-- An item of a type, through a trait if there is the path of one. -/
  | member (type : Node) (through : Option Node) (segments : List Node)
  | segment (name : String) (generics : Option Node)
  | angles (args : List Node)
  /-- The arguments of a trait of functions. -/
  | signature (params : List Node) (result : Option Node)
  | lifetime (name : String)
  /-- A type or a constant for an item of a trait. -/
  | itemValue (name : String) (generics : Option Node) (value : Node)
  /-- Bounds for an item of a trait. -/
  | itemBounds (name : String) (generics : Option Node) (bounds : List Node)
  -- Generic parameters
  | binder (params : List Node)
  | lifetimeParam (name : String) (bounds : List String)
  | typeParam (name : String) (bounds : List Node) (default : Option Node)
  | constParam (name : String) (type : Node) (default : Option Node)
  | trait (isParen maybe : Bool) (binder : Option Node) (path : Node)
  | capture (params : List String)
  | typeRule (binder : Option Node) (type : Node) (bounds : List Node)
  | lifetimeRule (name : String) (bounds : List String)
  -- Types
  | named (path : Node)
  | pointer (isMut : Bool) (target : Node)
  | slice (element : Node)
  | function (binder : Option Node) (head : String) (params : List Node) (more : Option Node)
      (result : Option Node)
  | object (bounds : List Node)
  | hidden (bounds : List Node)
  | never
  /-- More arguments than there are parameters. -/
  | variadic (label : Option Node)
  -- Types, patterns and expressions
  | hole
  | reference (lifetime : Option String) (isMut : Bool) (target : Node)
  | tuple (elements : List Node)
  | paren (inner : Node)
  /-- An array with its length: a type, or an expression. -/
  | replicate (element length : Node)
  | expansion (path : Node) (bracket : Bracket) (body : List TokenTree)
  /-- A part with its name. -/
  | labelled (label : String) (node : Node)
  /-- A name alone, in the place of a part with its name. -/
  | label (name : String)
  /-- Tokens that are code and have no layout. -/
  | verbatim
  -- Patterns and expressions
  | literal (text : String)
  | item (path : Node)
  | range (start : Option Node) (limits : String) (stop : Option Node)
  | block (kind : BlockKind) (body : Node)
  -- Patterns
  | binding (head name : String) (inner : Option Node)
  | choice (cases : List Node)
  | rest
  | slicePattern (elements : List Node)
  | recordPattern (path : Node) (fields : List Node) (rest : Option Node)
  | tuplePattern (elements : List Node) (trailing : Bool)
  | constructor (path : Node) (elements : List Node)
  | typed (pattern type : Node)
  -- Expressions
  | list (elements : List Node)
  | assign (target value : Node)
  | wait (base : Node)
  | binary (op : String) (left right : Node)
  | unary (op : String) (operand : Node)
  | leave (label : Option String) (value : Option Node)
  | again (label : Option String)
  | result (value : Option Node)
  | produce (value : Option Node)
  | call (function : Node) (args : List Node)
  | method (receiver : Node) (name : String) (generics : Option Node) (args : List Node)
  | field (base : Node) (name : String)
  | index (base position : Node)
  | attempt (inner : Node)
  | cast (operand type : Node)
  | address (isMut : Bool) (operand : Node)
  | closure (binder : Option Node) (head : String) (params : List Node) (result : Option Node)
      (body : Node)
  | fits (pattern value : Node)
  | cond (test body : Node) (otherwise : Option Node)
  | select (value : Node) (attributes arms : List Node)
  | arm (pattern : Node) (guard : Option Node) (body : Node)
  | loop (label : Option String) (body : Node)
  | during (label : Option String) (test body : Node)
  | each (label : Option String) (pattern values body : Node)
  | record (path : Node) (fields : List Node) (rest : Option Node)
  -- Statements
  | body (attributes stmts : List Node)
  | define (pattern : Node) (value otherwise : Option Node)
  | run (value : Node) (semicolon : Bool)
  | expand (call : Node) (semicolon : Bool)
  | nothing
  -- Declarations
  | constant (head : String) (type : Node) (value : Option Node)
  | procedure (head : String) (generics params : List Node) (more result : Option Node)
      (rules : List Node) (body : Option Node)
  /-- Named fields or variants. -/
  | members (head : String) (generics rules parts : List Node)
  /-- A tuple type with a name, or a type with a name alone. -/
  | positions (head : String) (generics : List Node) (fields : Option Node) (rules : List Node)
  | namedFields (fields : List Node)
  | unnamedFields (fields : List Node)
  | variant (name : String) (fields value : Option Node)
  | implementation (head : String) (generics : List Node) (negative : Bool) (through : Option Node)
      (type : Node) (rules : List Node) (body : Node)
  | container (head : String) (body : Option Node)
  | interface (head : String) (generics bounds rules : List Node) (body : Node)
  | interfaceAlias (head : String) (generics bounds rules : List Node)
  | typeAlias (head : String) (generics rules : List Node) (type : Node)
  | itemType (head : String) (generics bounds : List Node) (type : Option Node) (rules : List Node)
  | foreignType (head : String) (generics : List Node)
  | expandItem (call : Node) (name : Option String)
  /-- Rules by which something is expanded. -/
  | expander (name : String) (rules : List TokenTree)
  | imported (head : String) (tree : Node)
  | usePath (name : String) (tree : Node)
  | useName (text : String)
  | useGroup (trees : List Node)
  | file (attributes items : List Node)

namespace Node

/-- A part without its attributes. -/
def bare : Node → Node
  | attributed _ node => node.bare
  | node => node

end Node

end ProtoWire.Source
