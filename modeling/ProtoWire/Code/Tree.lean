import ProtoWire.Source.Token

/-!
# Generated code

Generated code is Rust, as a tree. Only the constructs that generators use are here.

A flag records each choice of spelling that means the same: a trailing comma, or how generic
arguments close.
-/

namespace ProtoWire.Code

open Source (Token)

/-- Operators with one operand. -/
inductive UnaryOp where
  | not
  | negate
  | deref

/-- Operators with two operands, the last three of them assigning. -/
inductive BinaryOp where
  | add
  | mul
  | div
  | bitAnd
  | and
  | or
  | eq
  | ne
  | addAssign
  | orAssign
  | andAssign
deriving DecidableEq

mutual

inductive Ty where
  | named (rooted : Bool) (segments : List Segment)
  | reference (lifetime : Option String) (isMut : Bool) (target : Ty)
  | slice (element : Ty)
  | array (element : Ty) (length : Nat)
  | unit

/-- A part of a path. -/
inductive Segment where
  | name (name : String)
  /-- A name with generic arguments; `glued` ones close right before another closing angle. -/
  | generic (name : String) (glued : Bool) (args : List GenericArg)
  /-- Segments as they were configured. -/
  | spelled (tokens : List Token)

inductive GenericArg where
  | lifetime (name : String)
  | type (type : Ty)

end

structure Path where
  /-- Whether the path starts with a separator. -/
  rooted : Bool
  segments : List Segment

inductive Pat where
  | wild
  | binding (name : String)
  | literal (negative : Bool) (text : String)
  | tuple (elements : List Pat)
  | constructor (path : Path) (elements : List Pat)

mutual

inductive Expr where
  | path (path : Path)
  /-- An item of a type through a trait. -/
  | assoc (type : Ty) (through : Path) (name : String)
  | literal (text : String)
  | unit
  | unary (op : UnaryOp) (operand : Expr)
  | binary (op : BinaryOp) (left right : Expr)
  | assign (target value : Expr)
  | cast (operand : Expr) (type : Ty)
  | reference (isMut : Bool) (operand : Expr)
  | paren (inner : Expr)
  | attempt (inner : Expr)
  | field (base : Expr) (name : String)
  | index (base : Expr) (position : String)
  | call (function : Expr) (args : List Expr) (trailingComma : Bool)
  | method (receiver : Expr) (name : String) (generics : List Ty) (args : List Expr)
      (trailingComma : Bool)
  | closure (params : List Pat) (body : Expr)
  | block (label : Option String) (body : List Stmt)
  | cond (test : Expr) (body : List Stmt)
  | either (test : Expr) (yes no : List Stmt)
  /-- A pattern match as a test. -/
  | fits (pattern : Pat) (value : Expr)
  | select (value : Expr) (arms : List Arm)
  | loop (label : Option String) (body : List Stmt)
  | during (test : Expr) (body : List Stmt)
  | each (pattern : Pat) (values : Expr) (body : List Stmt)
  | leave (label : Option String)
  | again (label : Option String)
  | result (value : Expr)
  | record (path : Path) (fields : List (String × Expr))
  | replicate (value : Expr) (length : String)

inductive Stmt where
  | define (isMut : Bool) (name : String) (value : Expr)
  | expr (value : Expr) (semicolon : Bool)
  /-- A check that stops the program with a message. -/
  | check (test : Expr) (message : String)
  | shared (name : String) (type : Ty) (value : Expr)

/-- An arm of a match. A block has no comma behind it, and all else has. -/
inductive Arm where
  | mk (pattern : Pat) (body : Expr)

end

/-- What stands before a declaration. -/
inductive Attribute where
  | doc (text : String)
  | flag (name : String)
  | list (name : String) (args : List String)

/-- How a method takes its receiver. -/
inductive Receiver where
  | value
  | shared
  | exclusive

structure Function where
  attributes : List Attribute := []
  isPublic : Bool := true
  name : String
  /-- Type parameters with their bounds. -/
  generics : List (String × Path) := []
  receiver : Option Receiver := some .shared
  params : List (String × Ty) := []
  trailingComma : Bool := false
  result : Option Ty := none
  body : List Stmt

/-- A declaration inside an implementation. -/
inductive Member where
  | function (function : Function)
  | constant (name : String) (type : Ty) (value : Expr)

inductive Item where
  | struct (attributes : List Attribute) (name : String) (fields : List (String × Ty))
  | enum (attributes : List Attribute) (name : String) (variants : List (String × Int))
  | implementation (attributes : List Attribute) (through : Option Path) (type : Ty)
      (members : List Member)
  | submodule (name : String) (items : List Item)

end ProtoWire.Code
