import LoxLang.Syntax.Parser

/-!
The rules of the grammar under watch. They are the rules of the parser, but they work on a token list that
stays as it is, with a cursor in it, and nothing is taken for granted: whoever looks at a token that is not
there stops, and so does a rule whose bound is used up. The places of the cursor are taken down, the calls of
the rule for declarations, and the mentions that are made. Nothing is taken off these notes again: not when a
rule fails, not when an expression is dropped, and not when one that was read becomes a target.
-/

namespace LoxLang

open LoxLang.Parser (binaryTiers unaryOp? constantOf lead? statementLead? declarationLead? beginsStatement maxArity)

namespace Watched

/-- Why a rule does not succeed. -/
inductive Stop where
  | fault (d : Diagnostic)
  /-- There is no token where one was looked at. -/
  | outOfBounds
  /-- The nesting was deeper, or a loop longer, than the bound allows. -/
  | exhausted

/-- A call of the rule for declarations that has ended. -/
structure Call where
  /-- The place of the cursor when the rule was called. -/
  start : Nat
  /-- The place of the cursor when the call ended. -/
  stop : Nat
  statement : Option Stmt
  /-- How many faults had been reported when the rule was called. -/
  before : Nat
  /-- How many faults had been reported when the call ended. -/
  after : Nat

structure State where
  tokens : List Token
  /-- The place of the token in front. -/
  current : Nat
  nextId : NodeId
  /-- What has been reported. -/
  faults : Array Diagnostic
  /-- Where the cursor has been, in order. -/
  path : Array Nat
  calls : Array Call
  /-- The mentions made so far, latest last. -/
  made : List Reference

/-- The state in which a program begins. -/
def State.start (tokens : List Token) (firstId : NodeId) : State :=
  ⟨tokens, 0, firstId, #[], #[0], #[], []⟩

/-- The state with the cursor behind the token in front. -/
def State.moved (s : State) : State :=
  { s with current := s.current + 1, path := s.path.push (s.current + 1) }

end Watched

/-- A rule of the grammar under watch. -/
abbrev Watched := EStateM Watched.Stop Watched.State

namespace Watched

/-! ### Tokens -/

def outOfBounds {α : Type} : Watched α :=
  throw .outOfBounds

def exhausted {α : Type} : Watched α :=
  throw .exhausted

/-- The token at a place. -/
def look (place : Nat) : Watched Token := do
  match (← get).tokens[place]? with
  | some t => return t
  | none => outOfBounds

/-- The token in front. -/
def peek : Watched Token := do
  look (← get).current

/-- The token behind which the cursor stands. -/
def previous : Watched Token := do
  match (← get).current with
  | 0 => outOfBounds
  | place + 1 => look place

/-- Moves the cursor behind the token in front, unless this is the end of the file. -/
def advance : Watched Unit := do
  if (← peek).kind ≠ .eof then modify State.moved

/-- Fails at the token in front. -/
def failHere {α : Type} (fault : GrammarFault) : Watched α := do
  throw (.fault ⟨(← peek).position, .grammar fault, none⟩)

/-- Reports a fault and goes on. -/
def report (position : Position) (fault : GrammarFault) : Watched Unit :=
  modify fun s => { s with faults := s.faults.push ⟨position, .grammar fault, none⟩ }

/-- Reports at the token in front a list that already has as many elements as it may. -/
def checkArity (count : Nat) (fault : GrammarFault) : Watched Unit := do
  if maxArity ≤ count then report (← peek).position fault

def freshId : Watched NodeId :=
  modifyGet fun s => (s.nextId, { s with nextId := s.nextId + 1 })

/-- Whether the token in front is of a kind. -/
def check (kind : TokenKind) : Watched Bool := do
  return (← peek).kind == kind

/-- Consumes the token in front if `choose` has a value for its kind. -/
def acceptWith? {α : Type} (choose : TokenKind → Option α) : Watched (Option (α × Token)) := do
  let t ← peek
  match choose t.kind with
  | none => return none
  | some a =>
    advance
    return some (a, t)

/-- Consumes the token in front if it is of a kind, and tells whether it was. -/
def accept (kind : TokenKind) : Watched Bool := do
  return (← acceptWith? fun k => if k = kind then some () else none).isSome

/-- Consumes a token of a kind, or fails because `what` was expected. -/
def expect (kind : TokenKind) (what : String) : Watched Token := do
  match ← acceptWith? fun k => if k = kind then some () else none with
  | some (_, t) => return t
  | none => failHere (.expected what)

def identifier (what : String) : Watched Ident := do
  let t ← expect .identifier what
  return ⟨t.lexeme, t.position⟩

/-- Makes a mention of a name. -/
def mention (name : Ident) : Watched Reference :=
  modifyGet fun s =>
    let r : Reference := ⟨s.nextId, name⟩
    (r, { s with nextId := s.nextId + 1, made := s.made ++ [r] })

/-! ### Expressions -/

/-- The remaining operands of a chain of operators of one tier, joined to the left. -/
def chainFrom (choose : TokenKind → Option (Expr → Position → Expr → Expr)) (operand : Watched Expr) :
    Nat → Expr → Watched Expr
  | 0, _ => exhausted
  | n + 1, left => do
    match ← acceptWith? choose with
    | none => return left
    | some (join, t) =>
      let right ← operand
      chainFrom choose operand n (join left t.position right)

/-- Operands of one tier of operators, joined to the left. -/
def chain (n : Nat) (choose : TokenKind → Option (Expr → Position → Expr → Expr))
    (operand : Watched Expr) : Watched Expr := do
  chainFrom choose operand n (← operand)

/-- Unary operators in front of an operand; the nearest one applies first. -/
def unary (operand : Watched Expr) : Nat → Watched Expr
  | 0 => exhausted
  | n + 1 => do
    match ← acceptWith? unaryOp? with
    | none => operand
    | some (op, t) => return .unary op t.position (← unary operand n)

/-- Arguments up to the closing parenthesis; `count` of them have been read. -/
def argumentsFrom (expression : Watched Expr) : Nat → Nat → Watched (List Expr)
  | 0, _ => exhausted
  | n + 1, count => do
    checkArity count .tooManyArguments
    let argument ← expression
    if ← accept .comma then
      return argument :: (← argumentsFrom expression n (count + 1))
    else return [argument]

/-- The arguments of a call, if there are any in front of the closing parenthesis. -/
def arguments (n : Nat) (expression : Watched Expr) : Watched (List Expr) := do
  if ← check .rightParen then return [] else argumentsFrom expression n 0

/-- The rest of a call of `callee`, behind the opening parenthesis. -/
def finishCall (n : Nat) (expression : Watched Expr) (callee : Expr) : Watched Expr := do
  let arguments ← arguments n expression
  let paren ← expect .rightParen "')' after arguments"
  return .call callee paren.position arguments

/-- Calls and property accesses behind an operand, applied from left to right. -/
def postfixes (expression : Watched Expr) : Nat → Expr → Watched Expr
  | 0, _ => exhausted
  | n + 1, e => do
    if ← accept .leftParen then
      postfixes expression n (← finishCall n expression e)
    else if ← accept .dot then
      let property ← identifier "property name after '.'"
      postfixes expression n (.get e property)
    else return e

def primary (expression : Watched Expr) : Watched Expr := do
  match ← acceptWith? lead? with
  | none => failHere (.expected "expression")
  | some (.constant value, _) => return .constant value
  | some (.literal, t) => return .constant (constantOf t)
  | some (.super, t) =>
    let _ ← expect .dot "'.' after 'super'"
    let method ← identifier "superclass method name"
    return .super (← mention ⟨superName, t.position⟩).id t.position method
  | some (.this, t) => return .this (← mention ⟨thisName, t.position⟩).id t.position
  | some (.name, t) => return .read (← mention ⟨t.lexeme, t.position⟩)
  | some (.paren, _) =>
    let inner ← expression
    let _ ← expect .rightParen "')' after expression"
    return .grouping inner

/-- Unary operators, an operand, and the calls and properties behind it. -/
def operand (n : Nat) (expression : Watched Expr) : Watched Expr :=
  unary (do postfixes expression n (← primary expression)) n

/-- The binary operators over their operands. -/
def binary (n : Nat) (expression : Watched Expr) : Watched Expr :=
  binaryTiers.foldr
    (fun tier operand => chain n (fun k => (tier k).map fun op l p r => .binary l op p r) operand)
    (operand n expression)

/-- The logical operators over their operands. -/
def logical (n : Nat) (expression : Watched Expr) : Watched Expr :=
  let tier (kind : TokenKind) (op : LogicalOp) (operand : Watched Expr) : Watched Expr :=
    chain n (fun k => if k = kind then some fun l _ r => .logical l op r else none) operand
  tier .kwOr .or (tier .kwAnd .and (binary n expression))

/-- An expression. What stands before an equals sign has to be a variable or a property; anything else is
reported, and the expression keeps its left side only. A variable that becomes a target is mentioned a second
time. -/
def expression : Nat → Watched Expr
  | 0 => exhausted
  | n + 1 => do
    let target ← logical (n + 1) (expression n)
    match ← acceptWith? fun k => if k = .equal then some () else none with
    | none => return target
    | some (_, equals) =>
      let value ← expression n
      match target with
      | .read r => return .assign (← mention r.ident) value
      | .get object property => return .set object property value
      | other =>
        report equals.position .invalidAssignmentTarget
        return other

/-! ### Statements -/

/-- An expression, unless a token of the given kind stands here. -/
def expressionUnless (n : Nat) (kind : TokenKind) : Watched (Option Expr) := do
  if ← check kind then return none else return some (← expression n)

/-- The value that a declaration gives to its variable, if it has one. -/
def initializer (n : Nat) : Watched (Option Expr) := do
  if ← accept .equal then return some (← expression n) else return none

def varDeclaration (n : Nat) : Watched Stmt := do
  let name ← identifier "variable name"
  let initializer ← initializer n
  let _ ← expect .semicolon "';' after variable declaration"
  return .var name initializer

def expressionStatement (n : Nat) : Watched Stmt := do
  let e ← expression n
  let _ ← expect .semicolon "';' after value"
  return .expression e

def printStatement (n : Nat) : Watched Stmt := do
  let e ← expression n
  let _ ← expect .semicolon "';' after value"
  return .print e

def returnStatement (n : Nat) (keyword : Token) : Watched Stmt := do
  let value ← expressionUnless n .semicolon
  let _ ← expect .semicolon "';' after return value"
  return .returnValue keyword.position value

def ifStatement (n : Nat) (statement : Watched Stmt) : Watched Stmt := do
  let _ ← expect .leftParen "'(' after 'if'"
  let condition ← expression n
  let _ ← expect .rightParen "')' after if condition"
  let thenBranch ← statement
  if ← accept .kwElse then return .ifElse condition thenBranch (← statement)
  else return .ifThen condition thenBranch

def whileStatement (n : Nat) (statement : Watched Stmt) : Watched Stmt := do
  let _ ← expect .leftParen "'(' after 'while'"
  let condition ← expression n
  let _ ← expect .rightParen "')' after condition"
  return .loop condition (← statement) none

/-- The first clause of a `for` statement, with the semicolon behind it. -/
def forInitializer (n : Nat) : Watched (Option Stmt) := do
  if ← accept .semicolon then return none
  else if ← accept .kwVar then return some (← varDeclaration n)
  else return some (← expressionStatement n)

/-- A `for` statement is a loop with an increment, in a block with its initializer if it has one. A
condition that is left out is true. -/
def forStatement (n : Nat) (statement : Watched Stmt) : Watched Stmt := do
  let _ ← expect .leftParen "'(' after 'for'"
  let initializer ← forInitializer n
  let condition ← expressionUnless n .semicolon
  let _ ← expect .semicolon "';' after loop condition"
  let increment ← expressionUnless n .rightParen
  let _ ← expect .rightParen "')' after for clauses"
  let body ← statement
  let loop := .loop (condition.getD (.constant (.bool true))) body increment
  match initializer with
  | some s => return .block [s, loop]
  | none => return loop

/-- A statement, given the rules for the statements and blocks inside it. -/
def statementWith (n : Nat) (statement : Watched Stmt) (block : Watched (List Stmt)) : Watched Stmt := do
  match ← acceptWith? statementLead? with
  | none => expressionStatement n
  | some (.for, _) => forStatement n statement
  | some (.if, _) => ifStatement n statement
  | some (.while, _) => whileStatement n statement
  | some (.return, t) => returnStatement n t
  | some (.break, t) =>
    let _ ← expect .semicolon "';' after 'break'"
    return .breakLoop t.position
  | some (.continue, t) =>
    let _ ← expect .semicolon "';' after 'continue'"
    return .continueLoop t.position
  | some (.block, _) => return .block (← block)
  | some (.print, _) => printStatement n

/-! ### Declarations -/

/-- Parameters up to the closing parenthesis; `count` of them have been read. -/
def parametersFrom : Nat → Nat → Watched (List Ident)
  | 0, _ => exhausted
  | n + 1, count => do
    checkArity count .tooManyParameters
    let parameter ← identifier "parameter name"
    if ← accept .comma then return parameter :: (← parametersFrom n (count + 1))
    else return [parameter]

/-- The parameters of a function, if there are any in front of the closing parenthesis. -/
def parameters (n : Nat) : Watched (List Ident) := do
  if ← check .rightParen then return [] else parametersFrom n 0

/-- A function or method behind its keyword; `kind` is the word for it in messages. -/
def function (n : Nat) (block : Watched (List Stmt)) (kind : String) : Watched FunctionDecl := do
  let name ← identifier (kind ++ " name")
  let _ ← expect .leftParen ("'(' after " ++ kind ++ " name")
  let parameters ← parameters n
  let _ ← expect .rightParen "')' after parameters"
  let _ ← expect .leftBrace ("'\x7b' before " ++ kind ++ " body")
  let body ← block
  return ⟨← freshId, name, parameters, body⟩

/-- Methods up to the closing brace. -/
def methodsFrom (block : Watched (List Stmt)) : Nat → Watched (List FunctionDecl)
  | 0 => exhausted
  | n + 1 => do
    if (← check .rightBrace) || (← check .eof) then return []
    else
      let method ← function n block "method"
      return method :: (← methodsFrom block n)

/-- The superclass that a class declaration names, if it names one. -/
def superclass : Watched (Option Reference) := do
  if ← accept .less then return some (← mention (← identifier "superclass name"))
  else return none

def classDeclaration (n : Nat) (block : Watched (List Stmt)) : Watched Stmt := do
  let name ← identifier "class name"
  let superclass ← superclass
  let _ ← expect .leftBrace "'\x7b' before class body"
  let methods ← methodsFrom block n
  let _ ← expect .rightBrace "'\x7d' after class body"
  return .classDecl name superclass methods

/-- Moves the cursor to the first boundary: behind a semicolon, or before a word that begins a statement, or to
the end of the file. -/
def skipToBoundary : Nat → Watched Unit
  | 0 => exhausted
  | n + 1 => do
    if (← peek).kind = .eof then return
    else if (← previous).kind = .semicolon then return
    else if beginsStatement (← peek).kind then return
    else
      advance
      skipToBoundary n

/-- Where to go on after a fault at the token in front: that token is skipped in any case. -/
def synchronize (n : Nat) : Watched Unit := do
  advance
  skipToBoundary n

/-- Runs a rule; if it fails, reports the fault and skips to the next boundary. -/
def recovering (n : Nat) (rule : Watched Stmt) : Watched (Option Stmt) := fun s =>
  match rule s with
  | .ok stmt s => .ok (some stmt) s
  | .error (.fault fault) s => (do synchronize n; return none) { s with faults := s.faults.push fault }
  | .error stop s => .error stop s

/-- Takes down how the call of a rule has ended. -/
def recorded (rule : Watched (Option Stmt)) : Watched (Option Stmt) := fun s =>
  match rule s with
  | .ok r s' =>
    .ok r { s' with calls := s'.calls.push ⟨s.current, s'.current, r, s.faults.size, s'.faults.size⟩ }
  | .error stop s' => .error stop s'

/-- A declaration or statement; `none` if it was faulty. -/
def declarationWith (n : Nat) (statement : Watched Stmt) (block : Watched (List Stmt)) :
    Watched (Option Stmt) :=
  recorded <| recovering n do
    match ← acceptWith? declarationLead? with
    | some (.kwClass, _) => classDeclaration n block
    | some (.kwFun, _) => return .function (← function n block "function")
    | some (.kwVar, _) => varDeclaration n
    | none => statementWith n statement block

/-- Declarations up to a closing brace or the end of the file; faulty ones are left out. -/
def declarationsFrom (declaration : Watched (Option Stmt)) : Nat → Watched (List Stmt)
  | 0 => exhausted
  | n + 1 => do
    if (← check .rightBrace) || (← check .eof) then return []
    else
      let stmt? ← declaration
      return stmt?.toList ++ (← declarationsFrom declaration n)

/-- The rest of a block behind its opening brace. -/
def blockWith (n : Nat) (declaration : Watched (Option Stmt)) : Watched (List Stmt) := do
  let body ← declarationsFrom declaration n
  let _ ← expect .rightBrace "'\x7d' after block"
  return body

mutual

/-- A statement inside another one. -/
def statement : Nat → Watched Stmt
  | 0 => exhausted
  | n + 1 => statementWith (n + 1) (statement n) (block n)

/-- The rest of a block behind its opening brace. -/
def block : Nat → Watched (List Stmt)
  | 0 => exhausted
  | n + 1 => blockWith (n + 1) (declarationWith (n + 1) (statement n) (block n))

end

/-- A declaration at the top level or in a block. -/
def declaration (n : Nat) : Watched (Option Stmt) :=
  declarationWith n (statement n) (block n)

/-- Declarations up to the end of the file; a stray closing brace is a fault like any other. -/
def programFrom (declaration : Watched (Option Stmt)) : Nat → Watched (List Stmt)
  | 0 => exhausted
  | n + 1 => do
    if ← check .eof then return []
    else
      let stmt? ← declaration
      return stmt?.toList ++ (← programFrom declaration n)

end Watched

/-- What parsing yields, and all mentions that have been made on the way, also where nothing is left of
them. -/
structure Noted where
  parse : Parse
  made : List Reference

/-- Parsing of a token list with a note of each mention made. -/
def noted (tokens : List Token) (firstId : NodeId) : Noted :=
  let n := tokens.length
  match (Watched.programFrom (Watched.declaration n) n).run (.start tokens firstId) with
  | .ok statements s => ⟨⟨statements, s.faults.toList, s.nextId⟩, s.made⟩
  | .error (.fault d) s => ⟨⟨[], (s.faults.push d).toList, s.nextId⟩, s.made⟩
  | .error _ s => ⟨⟨[], s.faults.toList, s.nextId⟩, s.made⟩

end LoxLang
