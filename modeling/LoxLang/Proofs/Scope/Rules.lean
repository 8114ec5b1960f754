import LoxLang.Scope.Resolution

/-!
The static rules, said about the program text alone. Every construct of a program stands at a site: some
things enclose it, and some names have been declared before it in its scope. The rules say which constructs
may stand at which sites. The list of all sites of a program is in source order.
-/

namespace LoxLang

/-! ### Surroundings -/

/-- Something that encloses a place in a program. -/
inductive Enclosure where
  | block
  /-- The body of a loop. -/
  | loop
  | function
  | method (name : Ident)
  /-- A class, and the superclass that it names if it names one. -/
  | cls (superclass : Option Reference)
  /-- The initializer of a variable. -/
  | initializer (name : Ident)
deriving DecidableEq, Inhabited

namespace Enclosure

def isFunction : Enclosure → Bool
  | function => true
  | method _ => true
  | _ => false

/-- Whether declarations in it belong to a scope of its own. -/
def opensScope : Enclosure → Bool
  | block => true
  | function => true
  | method _ => true
  | _ => false

/-- The superclass clause of a class. -/
def superclass? : Enclosure → Option (Option Reference)
  | cls superclass => some superclass
  | _ => none

end Enclosure

/-- What encloses a place, innermost first. -/
abbrev Surroundings := List Enclosure

namespace Surroundings

/-- The innermost function. -/
def function? (around : Surroundings) : Option Enclosure :=
  around.find? Enclosure.isFunction

/-- The superclass clause of the innermost class. -/
def cls? (around : Surroundings) : Option (Option Reference) :=
  around.findSome? Enclosure.superclass?

/-- A loop is among what encloses the place in its own function. -/
def InLoop (around : Surroundings) : Prop :=
  .loop ∈ around.takeWhile fun e => !e.isFunction

/-- The place is in a scope other than the global one. -/
def InScope (around : Surroundings) : Prop :=
  ∃ e ∈ around, e.opensScope

instance (around : Surroundings) : Decidable around.InLoop :=
  inferInstanceAs (Decidable (_ ∈ _))

instance (around : Surroundings) : Decidable around.InScope :=
  inferInstanceAs (Decidable (∃ e ∈ around, e.opensScope))

/-- The name of the innermost function if that is a method. -/
def method? (around : Surroundings) : Option String :=
  match around.function? with
  | some (.method name) => some name.name
  | _ => none

/-- The variable that the place initializes, if that is not a global one. -/
def initializing? : Surroundings → Option String
  | .initializer x :: outer => if InScope outer then some x.name else none
  | _ => none

end Surroundings

/-! ### Sites -/

/-- What can stand at a site. -/
inductive Construct where
  | statement (s : Stmt)
  | expression (e : Expr)
  /-- A name that is declared: that of a variable, a function, a class or a parameter. -/
  | declaration (name : Ident)
  /-- The superclass that the class of some name is said to have. -/
  | superclass (name : Ident) (superclass : Reference)

/-- A construct of a program and where it stands. -/
structure Site where
  around : Surroundings
  /-- The names that are declared before it in the scope it stands in. -/
  earlier : List String
  construct : Construct

/-- The names that a statement declares in the scope it stands in. Branches of conditionals and bodies of
loops have no scope of their own. -/
def Stmt.declares : Stmt → List Ident
  | .var name _ => [name]
  | .function declaration => [declaration.name]
  | .classDecl name _ _ => [name]
  | .ifThen _ thenBranch => thenBranch.declares
  | .ifElse _ thenBranch elseBranch => thenBranch.declares ++ elseBranch.declares
  | .loop _ body _ => body.declares
  | _ => []

mutual

/-- The expression and all its parts. The value of an assignment to a property comes before the object. -/
def Expr.parts : Expr → List Expr
  | .constant value => [.constant value]
  | .grouping inner => .grouping inner :: inner.parts
  | .unary op position operand => .unary op position operand :: operand.parts
  | .binary left op position right => .binary left op position right :: (left.parts ++ right.parts)
  | .logical left op right => .logical left op right :: (left.parts ++ right.parts)
  | .read target => [.read target]
  | .assign target value => .assign target value :: value.parts
  | .call callee paren arguments => .call callee paren arguments :: (callee.parts ++ Expr.allParts arguments)
  | .get object property => .get object property :: object.parts
  | .set object property value => .set object property value :: (value.parts ++ object.parts)
  | .this id position => [.this id position]
  | .super id position method => [.super id position method]

def Expr.allParts : List Expr → List Expr
  | [] => []
  | e :: rest => e.parts ++ Expr.allParts rest

end

def Expr.sites (around : Surroundings) (earlier : List String) (e : Expr) : List Site :=
  e.parts.map fun part => ⟨around, earlier, .expression part⟩

/-- Names that are declared one after the other. -/
def Site.declarations (around : Surroundings) (earlier : List String) : List Ident → List Site
  | [] => []
  | name :: rest =>
    ⟨around, earlier, .declaration name⟩ :: Site.declarations around (earlier ++ [name.name]) rest

mutual

/-- The sites of a statement and of everything in it. -/
def Stmt.sites (around : Surroundings) (earlier : List String) (s : Stmt) : List Site :=
  ⟨around, earlier, .statement s⟩ ::
    match s with
    | .expression e => e.sites around earlier
    | .print e => e.sites around earlier
    | .var name none => [⟨around, earlier, .declaration name⟩]
    | .var name (some e) =>
      ⟨around, earlier, .declaration name⟩ ::
        e.sites (.initializer name :: around) (earlier ++ [name.name])
    | .block body => Stmt.allSites (.block :: around) [] body
    | .ifThen condition thenBranch =>
      condition.sites around earlier ++ thenBranch.sites around earlier
    | .ifElse condition thenBranch elseBranch =>
      condition.sites around earlier ++ (thenBranch.sites around earlier ++
        elseBranch.sites around (earlier ++ thenBranch.declares.map Ident.name))
    | .loop condition body none =>
      condition.sites around earlier ++ body.sites (.loop :: around) earlier
    | .loop condition body (some increment) =>
      condition.sites around earlier ++ (body.sites (.loop :: around) earlier ++
        increment.sites around (earlier ++ body.declares.map Ident.name))
    | .breakLoop _ => []
    | .continueLoop _ => []
    | .function declaration =>
      ⟨around, earlier, .declaration declaration.name⟩ :: declaration.sites (.function :: around)
    | .returnValue _ none => []
    | .returnValue _ (some e) => e.sites around earlier
    | .classDecl name none methods =>
      ⟨around, earlier, .declaration name⟩ :: FunctionDecl.allSites (.cls none :: around) methods
    | .classDecl name (some superclass) methods =>
      ⟨around, earlier, .declaration name⟩ ::
        ⟨around, earlier ++ [name.name], .superclass name superclass⟩ ::
          ⟨around, earlier ++ [name.name], .expression (.read superclass)⟩ ::
            FunctionDecl.allSites (.cls (some superclass) :: around) methods

def Stmt.allSites (around : Surroundings) (earlier : List String) : List Stmt → List Site
  | [] => []
  | s :: rest =>
    s.sites around earlier ++ Stmt.allSites around (earlier ++ s.declares.map Ident.name) rest

/-- The sites in a function; its parameters and the statements of its body share one scope. -/
def FunctionDecl.sites (around : Surroundings) : FunctionDecl → List Site
  | ⟨_, _, parameters, body⟩ =>
    Site.declarations around [] parameters ++ Stmt.allSites around (parameters.map Ident.name) body

/-- The sites in the methods of a class. -/
def FunctionDecl.allSites (around : Surroundings) : List FunctionDecl → List Site
  | [] => []
  | m :: rest => m.sites (.method m.name :: around) ++ FunctionDecl.allSites around rest

end

/-! ### Rules -/

/-- A rule that is broken, as it is told to the user, and the place where it is. -/
structure Violation where
  fault : ScopeFault
  position : Position
deriving DecidableEq, Inhabited

def Violation.diagnostic (v : Violation) : Diagnostic :=
  ⟨v.position, .scope v.fault, none⟩

/-- What stands at a site breaks a rule. -/
inductive Site.Breaks : Site → Violation → Prop where
  | breakOutsideLoop {around : Surroundings} {earlier : List String} {p : Position} :
    ¬around.InLoop →
      Breaks ⟨around, earlier, .statement (.breakLoop p)⟩ ⟨.outsideLoop "break", p⟩
  | continueOutsideLoop {around : Surroundings} {earlier : List String} {p : Position} :
    ¬around.InLoop →
      Breaks ⟨around, earlier, .statement (.continueLoop p)⟩ ⟨.outsideLoop "continue", p⟩
  | returnAtTopLevel {around : Surroundings} {earlier : List String} {p : Position}
    {value : Option Expr} :
    around.function? = none →
      Breaks ⟨around, earlier, .statement (.returnValue p value)⟩ ⟨.returnAtTopLevel, p⟩
  | returnFromInitializer {around : Surroundings} {earlier : List String} {p : Position} {e : Expr} :
    around.method? = some initializerName →
      Breaks ⟨around, earlier, .statement (.returnValue p (some e))⟩ ⟨.returnFromInitializer, p⟩
  | thisOutsideClass {around : Surroundings} {earlier : List String} {id : NodeId} {p : Position} :
    around.cls? = none →
      Breaks ⟨around, earlier, .expression (.this id p)⟩ ⟨.thisOutsideClass, p⟩
  | superOutsideClass {around : Surroundings} {earlier : List String} {id : NodeId} {p : Position}
    {method : Ident} :
    around.cls? = none →
      Breaks ⟨around, earlier, .expression (.super id p method)⟩ ⟨.superOutsideClass, p⟩
  | superWithoutSuperclass {around : Surroundings} {earlier : List String} {id : NodeId} {p : Position}
    {method : Ident} :
    around.cls? = some none →
      Breaks ⟨around, earlier, .expression (.super id p method)⟩ ⟨.superWithoutSuperclass, p⟩
  | redeclared {around : Surroundings} {earlier : List String} {name : Ident} :
    around.InScope → name.name ∈ earlier →
      Breaks ⟨around, earlier, .declaration name⟩ ⟨.redeclared name.name, name.position⟩
  | readInOwnInitializer {around : Surroundings} {earlier : List String} {r : Reference} :
    around.initializing? = some r.ident.name →
      Breaks ⟨around, earlier, .expression (.read r)⟩ ⟨.readInOwnInitializer, r.ident.position⟩
  | inheritsFromItself {around : Surroundings} {earlier : List String} {name : Ident} {r : Reference} :
    r.ident.name = name.name →
      Breaks ⟨around, earlier, .superclass name r⟩ ⟨.inheritsFromItself, r.ident.position⟩

/-- A rule is broken somewhere in the program. -/
def Breaks (program : List Stmt) (v : Violation) : Prop :=
  ∃ site ∈ Stmt.allSites [] [] program, site.Breaks v

end LoxLang
