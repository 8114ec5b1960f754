import LoxLang.Diagnostic
import LoxLang.Syntax.Basic

/-!
Static scoping. The resolver walks a program once, in source order, with a stack of the scopes that
enclose the current place. For every mention of a variable it finds out how many scopes lie between the
mention and the declaration it refers to; a name that no scope on the stack declares is global. On the way
it enforces the rules on where words such as `break`, `return` and `super` may stand. The walk ends at the
first broken rule.
-/

namespace LoxLang

/-- The innermost function around a place, by what a return statement means in it. -/
inductive FunctionContext where
  | topLevel | function | method | initializer
deriving DecidableEq, Inhabited

/-- The innermost class around a place. -/
inductive ClassContext where
  | outside | root | derived
deriving DecidableEq, Inhabited

/-- What encloses a place. `inLoop` tells whether a loop of the innermost function does. -/
structure Context where
  function : FunctionContext
  cls : ClassContext
  inLoop : Bool
deriving DecidableEq, Inhabited

namespace Scope

/-- How far the declaration of a name is done: a variable can be read once its initializer is. -/
inductive Status where
  | declared | defined
deriving DecidableEq, Inhabited

end Scope

/-- The names of one scope, the latest entry of a name first. -/
abbrev Scope := List (String × Scope.Status)

/-- A mention of a variable and the number of scopes between it and its declaration; `none` for a global
variable. -/
structure Lookup where
  reference : Reference
  hops : Option Nat
deriving DecidableEq, Inhabited

namespace Resolver

structure State where
  /-- The scopes around the current place, innermost first; the global scope is not among them. -/
  scopes : List Scope
  /-- The mentions met so far. -/
  lookups : Array Lookup

end Resolver

/-- A walk over a part of a program. -/
abbrev Resolver := EStateM Diagnostic Resolver.State

namespace Resolver

def failAt {α : Type} (position : Position) (fault : ScopeFault) : Resolver α :=
  throw ⟨position, .scope fault, none⟩

/-- The number of scopes in front of the first one that has the name. -/
def hopsTo? (name : String) : List Scope → Option Nat
  | [] => none
  | scope :: outer => if (scope.lookup name).isSome then some 0 else (hopsTo? name outer).map (· + 1)

/-- Notes a mention of a variable. -/
def note (reference : Reference) : Resolver Unit :=
  modify fun s =>
    { s with lookups := s.lookups.push ⟨reference, hopsTo? reference.ident.name s.scopes⟩ }

/-- Adds a name to the innermost scope. The global scope keeps no record. -/
def bind (name : String) (status : Scope.Status) : Resolver Unit :=
  modify fun s =>
    match s.scopes with
    | [] => s
    | scope :: outer => { s with scopes := ((name, status) :: scope) :: outer }

/-- Enters a declaration of a name; a scope other than the global one takes each name once. -/
def declare (name : Ident) : Resolver Unit := do
  match (← get).scopes with
  | [] => return
  | scope :: _ =>
    if (scope.lookup name.name).isSome then failAt name.position (.redeclared name.name)
    else bind name.name .declared

/-- Marks a declaration as done. -/
def define (name : Ident) : Resolver Unit :=
  bind name.name .defined

def pushScope : Resolver Unit :=
  modify fun s => { s with scopes := [] :: s.scopes }

def popScope : Resolver Unit :=
  modify fun s => { s with scopes := s.scopes.tail }

/-- A read of a variable; the innermost scope must not be in the middle of its initializer. -/
def read (reference : Reference) : Resolver Unit := do
  if ((← get).scopes.head?.bind (·.lookup reference.ident.name)) = some .declared then
    failAt reference.ident.position .readInOwnInitializer
  note reference

mutual

def expression (c : Context) : Expr → Resolver Unit
  | .constant _ => return
  | .grouping inner => expression c inner
  | .unary _ _ operand => expression c operand
  | .binary left _ _ right => do
    expression c left
    expression c right
  | .logical left _ right => do
    expression c left
    expression c right
  | .read target => read target
  | .assign target value => do
    expression c value
    note target
  | .call callee _ arguments => do
    expression c callee
    expressions c arguments
  | .get object _ => expression c object
  | .set object _ value => do
    expression c value
    expression c object
  | .this id position => do
    if c.cls = .outside then failAt position .thisOutsideClass
    note (.this id position)
  | .super id position _ => do
    match c.cls with
    | .outside => failAt position .superOutsideClass
    | .root => failAt position .superWithoutSuperclass
    | .derived => note (.super id position)

def expressions (c : Context) : List Expr → Resolver Unit
  | [] => return
  | e :: rest => do
    expression c e
    expressions c rest

end

/-- Parameters are declared one after the other. -/
def parameters : List Ident → Resolver Unit
  | [] => return
  | p :: rest => do
    declare p
    define p
    parameters rest

/-- What a return statement in a method means. -/
def methodKind (name : Ident) : FunctionContext :=
  if name.name = initializerName then .initializer else .method

mutual

def statement (c : Context) : Stmt → Resolver Unit
  | .expression e => expression c e
  | .print e => expression c e
  | .var name none => do
    declare name
    define name
  | .var name (some e) => do
    declare name
    expression c e
    define name
  | .block body => do
    pushScope
    statements c body
    popScope
  | .ifThen condition thenBranch => do
    expression c condition
    statement c thenBranch
  | .ifElse condition thenBranch elseBranch => do
    expression c condition
    statement c thenBranch
    statement c elseBranch
  | .loop condition body none => do
    expression c condition
    statement { c with inLoop := true } body
  | .loop condition body (some increment) => do
    expression c condition
    statement { c with inLoop := true } body
    expression c increment
  | .breakLoop position =>
    if c.inLoop then return else failAt position (.outsideLoop "break")
  | .continueLoop position =>
    if c.inLoop then return else failAt position (.outsideLoop "continue")
  | .function declaration => do
    declare declaration.name
    define declaration.name
    function c .function declaration
  | .returnValue position value => do
    if c.function = .topLevel then failAt position .returnAtTopLevel
    match value with
    | none => return
    | some e =>
      if c.function = .initializer then failAt position .returnFromInitializer
      expression c e
  | .classDecl name none methods => do
    declare name
    define name
    pushScope
    bind thisName .defined
    functions { c with cls := .root } methods
    popScope
  | .classDecl name (some superclass) methods => do
    declare name
    define name
    if superclass.ident.name = name.name then
      failAt superclass.ident.position .inheritsFromItself
    read superclass
    pushScope
    bind superName .defined
    pushScope
    bind thisName .defined
    functions { c with cls := .derived } methods
    popScope
    popScope

/-- Parameters and body share one scope, and no loop around the function counts inside it. -/
def function (c : Context) (kind : FunctionContext) : FunctionDecl → Resolver Unit
  | ⟨_, _, names, body⟩ => do
    pushScope
    parameters names
    statements { c with function := kind, inLoop := false } body
    popScope

def statements (c : Context) : List Stmt → Resolver Unit
  | [] => return
  | s :: rest => do
    statement c s
    statements c rest

/-- The methods of a class. -/
def functions (c : Context) : List FunctionDecl → Resolver Unit
  | [] => return
  | m :: rest => do
    function c (methodKind m.name) m
    functions c rest

end

/-- The context of code outside all functions, classes and loops. -/
def topLevel : Context := ⟨.topLevel, .outside, false⟩

end Resolver

/-- What resolving yields: the mentions of variables in the order of the walk, up to the fault that ended
it, if one did. -/
structure Resolution where
  lookups : Array Lookup
  fault : Option Diagnostic

/-- Resolves the statements of one program. -/
def resolve (program : List Stmt) : Resolution :=
  match Resolver.statements Resolver.topLevel program ⟨[], #[]⟩ with
  | .ok _ s => ⟨s.lookups, none⟩
  | .error fault s => ⟨s.lookups, some fault⟩

end LoxLang
