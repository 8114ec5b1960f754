import LoxLang.Token.Basic

/-!
Syntax trees. Every node that refers to a variable has an identity of its own, by which the resolver
records where the variable lives; two reads of one name in different scopes are different nodes.
Function declarations have identities too: two functions are the same only if one declaration made both.
-/

namespace LoxLang

/-- The identity of a node of a syntax tree. -/
abbrev NodeId := Nat

/-- A name where it is written. -/
structure Ident where
  name : String
  position : Position
deriving DecidableEq, Inhabited

/-- A mention of a variable. -/
structure Reference where
  id : NodeId
  ident : Ident
deriving DecidableEq, Inhabited

/-- A value written directly in the source. -/
inductive Constant where
  | nil
  | bool (b : Bool)
  | number (n : Number)
  | string (s : String)
deriving DecidableEq, Inhabited

inductive UnaryOp where
  | not | negate
deriving DecidableEq, Inhabited

/-- The order comparisons. -/
inductive Comparison where
  | less | lessEqual | greater | greaterEqual
deriving DecidableEq, Inhabited

inductive BinaryOp where
  | equal
  | notEqual
  | order (c : Comparison)
  | arithmetic (op : Arithmetic)
deriving DecidableEq, Inhabited

inductive LogicalOp where
  | and | or
deriving DecidableEq, Inhabited

inductive Expr where
  | constant (value : Constant)
  | grouping (inner : Expr)
  | unary (op : UnaryOp) (position : Position) (operand : Expr)
  | binary (left : Expr) (op : BinaryOp) (position : Position) (right : Expr)
  /-- Evaluates its right operand only if the left one does not decide. -/
  | logical (left : Expr) (op : LogicalOp) (right : Expr)
  | read (target : Reference)
  | assign (target : Reference) (value : Expr)
  /-- `paren` is the place of the closing parenthesis. -/
  | call (callee : Expr) (paren : Position) (arguments : List Expr)
  | get (object : Expr) (property : Ident)
  | set (object : Expr) (property : Ident) (value : Expr)
  | this (id : NodeId) (position : Position)
  | super (id : NodeId) (position : Position) (method : Ident)
deriving Inhabited

mutual

inductive Stmt where
  | expression (e : Expr)
  | print (e : Expr)
  | var (name : Ident) (initializer : Option Expr)
  | block (body : List Stmt)
  | ifThen (condition : Expr) (thenBranch : Stmt)
  | ifElse (condition : Expr) (thenBranch elseBranch : Stmt)
  /-- Evaluates the increment after every round, also after one that `continue` cut short. -/
  | loop (condition : Expr) (body : Stmt) (increment : Option Expr)
  | breakLoop (position : Position)
  | continueLoop (position : Position)
  | function (declaration : FunctionDecl)
  | returnValue (position : Position) (value : Option Expr)
  | classDecl (name : Ident) (superclass : Option Reference) (methods : List FunctionDecl)

/-- A named function or method. -/
structure FunctionDecl where
  id : NodeId
  name : Ident
  parameters : List Ident
  body : List Stmt

end

instance : Inhabited Stmt := ⟨.block []⟩
instance : Inhabited FunctionDecl := ⟨⟨0, default, [], []⟩⟩

/-- The name that a class gives to the receiver of its methods. -/
def thisName : String := "this"

/-- The name that a class gives to its superclass. -/
def superName : String := "super"

/-- The name of the method that sets up a new instance. -/
def initializerName : String := "init"

/-- The mention of the receiver at a node. -/
def Reference.this (id : NodeId) (position : Position) : Reference :=
  ⟨id, ⟨thisName, position⟩⟩

/-- The mention of the superclass at a node. -/
def Reference.super (id : NodeId) (position : Position) : Reference :=
  ⟨id, ⟨superName, position⟩⟩

end LoxLang
