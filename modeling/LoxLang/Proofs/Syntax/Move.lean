import LoxLang.Diagnostic
import LoxLang.Proofs.Syntax.Alike

/-!
Code that has been moved: its tokens stand in other places, and its nodes have been numbered from further on.
Names may have been spelled otherwise on the way. Code that has been moved in two ways is alike if its names
are spelled in the same way.
-/

namespace LoxLang

/-- The token where the places are different ones. -/
def Token.placed (place : Position → Position) (t : Token) : Token :=
  { t with span := ⟨place t.span.start, place t.span.stop⟩ }

@[inherit_doc Token.placed]
def Diagnostic.placed (place : Position → Position) (d : Diagnostic) : Diagnostic :=
  { d with position := place d.position }

/-- How code is moved. -/
structure Move where
  /-- By how much the identities of nodes are larger. -/
  shift : Nat
  /-- The places where the tokens stand instead of their own. -/
  place : Position → Position
  /-- What is written there instead of a word that stands at a place of the original. -/
  spell : Position → String → String

namespace Move

/-- Code that keeps its names. -/
def along (shift : Nat) (place : Position → Position) : Move :=
  ⟨shift, place, fun _ word => word⟩

/-- What corresponds when the same code is moved in two ways. -/
def between (v w : Move) : Skew :=
  ⟨fun i j => ∃ k : Nat, i = k + v.shift ∧ j = k + w.shift, fun p q => ∃ r, p = v.place r ∧ q = w.place r⟩

/-- What corresponds when the same code is moved in two ways, with places that correspond in a way of their
own. -/
def across (v w : Move) (P : Position → Position → Prop) : Skew :=
  ⟨(v.between w).node, P⟩

def token (v : Move) (t : Token) : Token :=
  { t.placed v.place with lexeme := v.spell t.position t.lexeme }

def diagnostic (v : Move) : Diagnostic → Diagnostic :=
  Diagnostic.placed v.place

def ident (v : Move) (x : Ident) : Ident :=
  ⟨v.spell x.position x.name, v.place x.position⟩

def reference (v : Move) (r : Reference) : Reference :=
  ⟨r.id + v.shift, v.ident r.ident⟩

mutual

def expr (v : Move) : Expr → Expr
  | .constant value => .constant value
  | .grouping inner => .grouping (v.expr inner)
  | .unary op position operand => .unary op (v.place position) (v.expr operand)
  | .binary left op position right => .binary (v.expr left) op (v.place position) (v.expr right)
  | .logical left op right => .logical (v.expr left) op (v.expr right)
  | .read target => .read (v.reference target)
  | .assign target value => .assign (v.reference target) (v.expr value)
  | .call callee paren arguments => .call (v.expr callee) (v.place paren) (v.exprs arguments)
  | .get object property => .get (v.expr object) (v.ident property)
  | .set object property value => .set (v.expr object) (v.ident property) (v.expr value)
  | .this id position => .this (id + v.shift) (v.place position)
  | .super id position method => .super (id + v.shift) (v.place position) (v.ident method)

def exprs (v : Move) : List Expr → List Expr
  | [] => []
  | e :: rest => v.expr e :: v.exprs rest

end

mutual

def stmt (v : Move) : Stmt → Stmt
  | .expression e => .expression (v.expr e)
  | .print e => .print (v.expr e)
  | .var name initializer => .var (v.ident name) (initializer.map v.expr)
  | .block body => .block (v.stmts body)
  | .ifThen condition thenBranch => .ifThen (v.expr condition) (v.stmt thenBranch)
  | .ifElse condition thenBranch elseBranch =>
    .ifElse (v.expr condition) (v.stmt thenBranch) (v.stmt elseBranch)
  | .loop condition body increment =>
    .loop (v.expr condition) (v.stmt body) (increment.map v.expr)
  | .breakLoop position => .breakLoop (v.place position)
  | .continueLoop position => .continueLoop (v.place position)
  | .function declaration => .function (v.function declaration)
  | .returnValue position value => .returnValue (v.place position) (value.map v.expr)
  | .classDecl name superclass methods =>
    .classDecl (v.ident name) (superclass.map v.reference) (v.functions methods)

def stmts (v : Move) : List Stmt → List Stmt
  | [] => []
  | s :: rest => v.stmt s :: v.stmts rest

def function (v : Move) : FunctionDecl → FunctionDecl
  | ⟨id, name, parameters, body⟩ =>
    ⟨id + v.shift, v.ident name, parameters.map v.ident, v.stmts body⟩

def functions (v : Move) : List FunctionDecl → List FunctionDecl
  | [] => []
  | m :: rest => v.function m :: v.functions rest

end

/-- The statements of a declaration, in front of others. -/
theorem stmts_toList (v : Move) (stmt? : Option Stmt) (rest : List Stmt) :
    v.stmts (stmt?.toList ++ rest) = (stmt?.map v.stmt).toList ++ v.stmts rest := by
  cases stmt? <;> rfl

/-! ### Moved code is alike -/

section Alike

theorem place_between (v w : Move) (p : Position) : (v.between w).place (v.place p) (w.place p) :=
  ⟨p, rfl, rfl⟩

theorem node_between (v w : Move) (id : Nat) : (v.between w).node (id + v.shift) (id + w.shift) :=
  ⟨id, rfl, rfl⟩

theorem map_alike {α : Type} {R : α → α → Prop} {f g : α → α} (h : ∀ a, R (f a) (g a)) (o : Option α) :
    Option.Rel R (o.map f) (o.map g) := by
  cases o with
  | none => exact .none
  | some a => exact .some (h a)

variable {v w : Move}

theorem ident_alike (hspell : v.spell = w.spell) (x : Ident) :
    (v.ident x).Alike (v.between w) (w.ident x) :=
  ⟨congrFun (congrFun hspell x.position) x.name, v.place_between w x.position⟩

theorem reference_alike (hspell : v.spell = w.spell) (r : Reference) :
    (v.reference r).Alike (v.between w) (w.reference r) :=
  ⟨v.node_between w r.id, ident_alike hspell r.ident⟩

mutual

theorem expr_alike (hspell : v.spell = w.spell) : ∀ e : Expr, (v.expr e).Alike (v.between w) (w.expr e)
  | .constant value => .constant value
  | .grouping inner => .grouping (expr_alike hspell inner)
  | .unary op _ operand => .unary op (v.place_between w _) (expr_alike hspell operand)
  | .binary left op _ right =>
    .binary op (expr_alike hspell left) (v.place_between w _) (expr_alike hspell right)
  | .logical left op right => .logical op (expr_alike hspell left) (expr_alike hspell right)
  | .read target => .read (reference_alike hspell target)
  | .assign target value => .assign (reference_alike hspell target) (expr_alike hspell value)
  | .call callee _ arguments =>
    .call (expr_alike hspell callee) (v.place_between w _) (exprs_alike hspell arguments)
  | .get object property => .get (expr_alike hspell object) (ident_alike hspell property)
  | .set object property value =>
    .set (expr_alike hspell object) (ident_alike hspell property) (expr_alike hspell value)
  | .this id _ => .this (v.node_between w id) (v.place_between w _)
  | .super id _ method =>
    .super (v.node_between w id) (v.place_between w _) (ident_alike hspell method)

theorem exprs_alike (hspell : v.spell = w.spell) :
    ∀ es : List Expr, List.Forall₂ (Expr.Alike (v.between w)) (v.exprs es) (w.exprs es)
  | [] => .nil
  | e :: rest => .cons (expr_alike hspell e) (exprs_alike hspell rest)

end

theorem idents_alike (hspell : v.spell = w.spell) (xs : List Ident) :
    List.Forall₂ (Ident.Alike (v.between w)) (xs.map v.ident) (xs.map w.ident) := by
  induction xs with
  | nil => exact .nil
  | cons x _ ih => exact .cons (ident_alike hspell x) ih

mutual

theorem stmt_alike (hspell : v.spell = w.spell) : ∀ s : Stmt, (v.stmt s).Alike (v.between w) (w.stmt s)
  | .expression e => .expression (expr_alike hspell e)
  | .print e => .print (expr_alike hspell e)
  | .var name initializer => .var (ident_alike hspell name) (map_alike (expr_alike hspell) initializer)
  | .block body => .block (stmts_alike hspell body)
  | .ifThen condition thenBranch => .ifThen (expr_alike hspell condition) (stmt_alike hspell thenBranch)
  | .ifElse condition thenBranch elseBranch =>
    .ifElse (expr_alike hspell condition) (stmt_alike hspell thenBranch) (stmt_alike hspell elseBranch)
  | .loop condition body increment =>
    .loop (expr_alike hspell condition) (stmt_alike hspell body) (map_alike (expr_alike hspell) increment)
  | .breakLoop _ => .breakLoop (v.place_between w _)
  | .continueLoop _ => .continueLoop (v.place_between w _)
  | .function declaration => .function (function_alike hspell declaration)
  | .returnValue _ value => .returnValue (v.place_between w _) (map_alike (expr_alike hspell) value)
  | .classDecl name superclass methods =>
    .classDecl (ident_alike hspell name) (map_alike (reference_alike hspell) superclass)
      (functions_alike hspell methods)

theorem stmts_alike (hspell : v.spell = w.spell) :
    ∀ body : List Stmt, List.Forall₂ (Stmt.Alike (v.between w)) (v.stmts body) (w.stmts body)
  | [] => .nil
  | s :: rest => .cons (stmt_alike hspell s) (stmts_alike hspell rest)

theorem function_alike (hspell : v.spell = w.spell) : ∀ d : FunctionDecl,
    (v.function d).Alike (v.between w) (w.function d)
  | ⟨id, name, parameters, body⟩ =>
    .mk (v.node_between w id) (ident_alike hspell name) (idents_alike hspell parameters)
      (stmts_alike hspell body)

theorem functions_alike (hspell : v.spell = w.spell) : ∀ ds : List FunctionDecl,
    List.Forall₂ (FunctionDecl.Alike (v.between w)) (v.functions ds) (w.functions ds)
  | [] => .nil
  | d :: rest => .cons (function_alike hspell d) (functions_alike hspell rest)

end

end Alike

end Move

end LoxLang
