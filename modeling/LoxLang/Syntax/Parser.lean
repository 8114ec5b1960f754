import LoxLang.Diagnostic
import LoxLang.Syntax.Basic

/-!
From tokens to syntax trees, by recursive descent. A fault unwinds to the nearest enclosing declaration,
which reports it, skips to what looks like the beginning of the next statement and goes on there; an
overlong list and an impossible assignment target are reported on the spot without unwinding.

Every nesting level consumes a token before it recurses, so the number of tokens left bounds the depth,
and every loop consumes a token per round, so it bounds the rounds too. That number is the first argument
of each rule: a rule is used with a number that is at least the number of tokens left.
-/

namespace LoxLang

namespace Parser

/-- The largest number of parameters or arguments. -/
def maxArity : Nat := 255

structure State where
  /-- The tokens that are not consumed yet; the last one is the end of the file. -/
  rest : List Token
  /-- The identity that the next node gets. -/
  nextId : NodeId
  /-- What has been reported. -/
  faults : Array Diagnostic

end Parser

/-- A rule of the grammar: it consumes tokens and yields a value, or fails with a fault. -/
abbrev Parser := EStateM Diagnostic Parser.State

namespace Parser

/-! ### Tokens -/

/-- The token in front. -/
def State.front (s : State) : Token :=
  s.rest.headD (.endOfFile 0)

@[inherit_doc State.front]
def peek : Parser Token :=
  return (← get).front

/-- Fails at the token in front. -/
def failHere {α : Type} (fault : GrammarFault) : Parser α := do
  throw ⟨(← peek).position, .grammar fault, none⟩

/-- Reports a fault and goes on. -/
def report (position : Position) (fault : GrammarFault) : Parser Unit :=
  modify fun s => { s with faults := s.faults.push ⟨position, .grammar fault, none⟩ }

/-- Reports at the token in front a list that already has as many elements as it may. -/
def checkArity (count : Nat) (fault : GrammarFault) : Parser Unit := do
  if maxArity ≤ count then report (← peek).position fault

def freshId : Parser NodeId :=
  modifyGet fun s => (s.nextId, { s with nextId := s.nextId + 1 })

/-- Whether the token in front is of a kind. -/
def check (kind : TokenKind) : Parser Bool := do
  return (← peek).kind == kind

/-- Consumes the token in front if `choose` has a value for its kind. -/
def acceptWith? {α : Type} (choose : TokenKind → Option α) : Parser (Option (α × Token)) := do
  let s ← get
  match s.rest with
  | [] => return none
  | t :: rest =>
    match choose t.kind with
    | none => return none
    | some a =>
      set { s with rest := rest }
      return some (a, t)

/-- Consumes the token in front if it is of a kind, and tells whether it was. -/
def accept (kind : TokenKind) : Parser Bool := do
  return (← acceptWith? fun k => if k = kind then some () else none).isSome

/-- Consumes a token of a kind, or fails because `what` was expected. -/
def expect (kind : TokenKind) (what : String) : Parser Token := do
  match ← acceptWith? fun k => if k = kind then some () else none with
  | some (_, t) => return t
  | none => failHere (.expected what)

def identifier (what : String) : Parser Ident := do
  let t ← expect .identifier what
  return ⟨t.lexeme, t.position⟩

/-- The mention of a variable by a token. -/
def reference (name : Ident) : Parser Reference :=
  return ⟨← freshId, name⟩

/-! ### Expressions -/

/-- The binary operators from the weakest to the strongest tier. -/
def binaryTiers : List (TokenKind → Option BinaryOp) :=
  [ fun
      | .bangEqual => some .notEqual
      | .equalEqual => some .equal
      | _ => none,
    fun
      | .greater => some (.order .greater)
      | .greaterEqual => some (.order .greaterEqual)
      | .less => some (.order .less)
      | .lessEqual => some (.order .lessEqual)
      | _ => none,
    fun
      | .minus => some (.arithmetic .sub)
      | .plus => some (.arithmetic .add)
      | _ => none,
    fun
      | .slash => some (.arithmetic .div)
      | .star => some (.arithmetic .mul)
      | .percent => some (.arithmetic .rem)
      | .backSlash => some (.arithmetic .floorDiv)
      | _ => none,
    fun
      | .caret => some (.arithmetic .pow)
      | _ => none ]

def unaryOp? : TokenKind → Option UnaryOp
  | .bang => some .not
  | .minus => some .negate
  | _ => none

/-- The remaining operands of a chain of operators of one tier, joined to the left. -/
def chainFrom (choose : TokenKind → Option (Expr → Position → Expr → Expr)) (operand : Parser Expr) :
    Nat → Expr → Parser Expr
  | 0, left => return left
  | n + 1, left => do
    match ← acceptWith? choose with
    | none => return left
    | some (join, t) =>
      let right ← operand
      chainFrom choose operand n (join left t.position right)

/-- Operands of one tier of operators, joined to the left. -/
def chain (n : Nat) (choose : TokenKind → Option (Expr → Position → Expr → Expr))
    (operand : Parser Expr) : Parser Expr := do
  chainFrom choose operand n (← operand)

/-- Unary operators in front of an operand; the nearest one applies first. -/
def unary (operand : Parser Expr) : Nat → Parser Expr
  | 0 => operand
  | n + 1 => do
    match ← acceptWith? unaryOp? with
    | none => operand
    | some (op, t) => return .unary op t.position (← unary operand n)

/-- Arguments up to the closing parenthesis; `count` of them have been read. -/
def argumentsFrom (expression : Parser Expr) : Nat → Nat → Parser (List Expr)
  | 0, _ => return []
  | n + 1, count => do
    checkArity count .tooManyArguments
    let argument ← expression
    if ← accept .comma then
      return argument :: (← argumentsFrom expression n (count + 1))
    else return [argument]

/-- The arguments of a call, if there are any in front of the closing parenthesis. -/
def arguments (n : Nat) (expression : Parser Expr) : Parser (List Expr) := do
  if ← check .rightParen then return [] else argumentsFrom expression n 0

/-- The rest of a call of `callee`, behind the opening parenthesis. -/
def finishCall (n : Nat) (expression : Parser Expr) (callee : Expr) : Parser Expr := do
  let arguments ← arguments n expression
  let paren ← expect .rightParen "')' after arguments"
  return .call callee paren.position arguments

/-- Calls and property accesses behind an operand, applied from left to right. -/
def postfixes (expression : Parser Expr) : Nat → Expr → Parser Expr
  | 0, e => return e
  | n + 1, e => do
    if ← accept .leftParen then
      postfixes expression n (← finishCall n expression e)
    else if ← accept .dot then
      let property ← identifier "property name after '.'"
      postfixes expression n (.get e property)
    else return e

/-- The value of a number or string token. -/
def constantOf (t : Token) : Constant :=
  match t.literal with
  | some (.string s) => .string s
  | some (.number v) => .number v
  | none => .nil

/-- The words that begin an operand. -/
inductive Lead where
  | constant (value : Constant)
  | literal
  | super
  | this
  | name
  | paren

def lead? : TokenKind → Option Lead
  | .kwFalse => some (.constant (.bool false))
  | .kwTrue => some (.constant (.bool true))
  | .kwNil => some (.constant .nil)
  | .number => some .literal
  | .string => some .literal
  | .kwSuper => some .super
  | .kwThis => some .this
  | .identifier => some .name
  | .leftParen => some .paren
  | _ => none

def primary (expression : Parser Expr) : Parser Expr := do
  match ← acceptWith? lead? with
  | none => failHere (.expected "expression")
  | some (.constant value, _) => return .constant value
  | some (.literal, t) => return .constant (constantOf t)
  | some (.super, t) =>
    let _ ← expect .dot "'.' after 'super'"
    let method ← identifier "superclass method name"
    return .super (← freshId) t.position method
  | some (.this, t) => return .this (← freshId) t.position
  | some (.name, t) => return .read (← reference ⟨t.lexeme, t.position⟩)
  | some (.paren, _) =>
    let inner ← expression
    let _ ← expect .rightParen "')' after expression"
    return .grouping inner

/-- Unary operators, an operand, and the calls and properties behind it. -/
def operand (n : Nat) (expression : Parser Expr) : Parser Expr :=
  unary (do postfixes expression n (← primary expression)) n

/-- The binary operators over their operands. -/
def binary (n : Nat) (expression : Parser Expr) : Parser Expr :=
  binaryTiers.foldr
    (fun tier operand => chain n (fun k => (tier k).map fun op l p r => .binary l op p r) operand)
    (operand n expression)

/-- The logical operators over their operands. -/
def logical (n : Nat) (expression : Parser Expr) : Parser Expr :=
  let tier (kind : TokenKind) (op : LogicalOp) (operand : Parser Expr) : Parser Expr :=
    chain n (fun k => if k = kind then some fun l _ r => .logical l op r else none) operand
  tier .kwOr .or (tier .kwAnd .and (binary n expression))

/-- An expression. What stands before an equals sign has to be a variable or a property; anything else is
reported, and the expression keeps its left side only. -/
def expression : Nat → Parser Expr
  | 0 => failHere (.expected "expression")
  | n + 1 => do
    let target ← logical (n + 1) (expression n)
    match ← acceptWith? fun k => if k = .equal then some () else none with
    | none => return target
    | some (_, equals) =>
      let value ← expression n
      match target with
      | .read r => return .assign (← reference r.ident) value
      | .get object property => return .set object property value
      | other =>
        report equals.position .invalidAssignmentTarget
        return other

/-! ### Statements -/

/-- An expression, unless a token of the given kind stands here. -/
def expressionUnless (n : Nat) (kind : TokenKind) : Parser (Option Expr) := do
  if ← check kind then return none else return some (← expression n)

/-- The value that a declaration gives to its variable, if it has one. -/
def initializer (n : Nat) : Parser (Option Expr) := do
  if ← accept .equal then return some (← expression n) else return none

def varDeclaration (n : Nat) : Parser Stmt := do
  let name ← identifier "variable name"
  let initializer ← initializer n
  let _ ← expect .semicolon "';' after variable declaration"
  return .var name initializer

def expressionStatement (n : Nat) : Parser Stmt := do
  let e ← expression n
  let _ ← expect .semicolon "';' after value"
  return .expression e

def printStatement (n : Nat) : Parser Stmt := do
  let e ← expression n
  let _ ← expect .semicolon "';' after value"
  return .print e

def returnStatement (n : Nat) (keyword : Token) : Parser Stmt := do
  let value ← expressionUnless n .semicolon
  let _ ← expect .semicolon "';' after return value"
  return .returnValue keyword.position value

def ifStatement (n : Nat) (statement : Parser Stmt) : Parser Stmt := do
  let _ ← expect .leftParen "'(' after 'if'"
  let condition ← expression n
  let _ ← expect .rightParen "')' after if condition"
  let thenBranch ← statement
  if ← accept .kwElse then return .ifElse condition thenBranch (← statement)
  else return .ifThen condition thenBranch

def whileStatement (n : Nat) (statement : Parser Stmt) : Parser Stmt := do
  let _ ← expect .leftParen "'(' after 'while'"
  let condition ← expression n
  let _ ← expect .rightParen "')' after condition"
  return .loop condition (← statement) none

/-- The first clause of a `for` statement, with the semicolon behind it. -/
def forInitializer (n : Nat) : Parser (Option Stmt) := do
  if ← accept .semicolon then return none
  else if ← accept .kwVar then return some (← varDeclaration n)
  else return some (← expressionStatement n)

/-- A `for` statement is a loop with an increment, in a block with its initializer if it has one. A
condition that is left out is true. -/
def forStatement (n : Nat) (statement : Parser Stmt) : Parser Stmt := do
  let _ ← expect .leftParen "'(' after 'for'"
  let initializer ← forInitializer n
  let condition ← expressionUnless n .semicolon
  let _ ← expect .semicolon "';' after loop condition"
  let increment ← expressionUnless n .rightParen
  let _ ← expect .rightParen "')' after for clauses"
  let body ← statement
  let loop := .loop (condition.getD (.constant (.bool true))) body increment
  match initializer with
  | some s => return .block [s, loop]
  | none => return loop

/-- The words that begin a statement that is not an expression. -/
inductive StatementLead where
  | for | if | while | return | break | continue | block | print

def statementLead? : TokenKind → Option StatementLead
  | .kwFor => some .for
  | .kwIf => some .if
  | .kwWhile => some .while
  | .kwReturn => some .return
  | .kwBreak => some .break
  | .kwContinue => some .continue
  | .leftBrace => some .block
  | .kwPrint => some .print
  | _ => none

/-- A statement, given the rules for the statements and blocks inside it. -/
def statementWith (n : Nat) (statement : Parser Stmt) (block : Parser (List Stmt)) : Parser Stmt := do
  match ← acceptWith? statementLead? with
  | none => expressionStatement n
  | some (.for, _) => forStatement n statement
  | some (.if, _) => ifStatement n statement
  | some (.while, _) => whileStatement n statement
  | some (.return, t) => returnStatement n t
  | some (.break, t) =>
    let _ ← expect .semicolon "';' after 'break'"
    return .breakLoop t.position
  | some (.continue, t) =>
    let _ ← expect .semicolon "';' after 'continue'"
    return .continueLoop t.position
  | some (.block, _) => return .block (← block)
  | some (.print, _) => printStatement n

/-! ### Declarations -/

/-- Parameters up to the closing parenthesis; `count` of them have been read. -/
def parametersFrom : Nat → Nat → Parser (List Ident)
  | 0, _ => return []
  | n + 1, count => do
    checkArity count .tooManyParameters
    let parameter ← identifier "parameter name"
    if ← accept .comma then return parameter :: (← parametersFrom n (count + 1))
    else return [parameter]

/-- The parameters of a function, if there are any in front of the closing parenthesis. -/
def parameters (n : Nat) : Parser (List Ident) := do
  if ← check .rightParen then return [] else parametersFrom n 0

/-- A function or method behind its keyword; `kind` is the word for it in messages. -/
def function (n : Nat) (block : Parser (List Stmt)) (kind : String) : Parser FunctionDecl := do
  let name ← identifier (kind ++ " name")
  let _ ← expect .leftParen ("'(' after " ++ kind ++ " name")
  let parameters ← parameters n
  let _ ← expect .rightParen "')' after parameters"
  let _ ← expect .leftBrace ("'\x7b' before " ++ kind ++ " body")
  let body ← block
  return ⟨← freshId, name, parameters, body⟩

/-- Methods up to the closing brace. -/
def methodsFrom (block : Parser (List Stmt)) : Nat → Parser (List FunctionDecl)
  | 0 => return []
  | n + 1 => do
    if (← check .rightBrace) || (← check .eof) then return []
    else
      let method ← function n block "method"
      return method :: (← methodsFrom block n)

/-- The superclass that a class declaration names, if it names one. -/
def superclass : Parser (Option Reference) := do
  if ← accept .less then return some (← reference (← identifier "superclass name"))
  else return none

def classDeclaration (n : Nat) (block : Parser (List Stmt)) : Parser Stmt := do
  let name ← identifier "class name"
  let superclass ← superclass
  let _ ← expect .leftBrace "'\x7b' before class body"
  let methods ← methodsFrom block n
  let _ ← expect .rightBrace "'\x7d' after class body"
  return .classDecl name superclass methods

/-- The words that begin a declaration. -/
inductive DeclarationLead where
  | kwClass | kwFun | kwVar

def declarationLead? : TokenKind → Option DeclarationLead
  | .kwClass => some .kwClass
  | .kwFun => some .kwFun
  | .kwVar => some .kwVar
  | _ => none

/-- The keywords at which parsing is taken up again after a fault. -/
def beginsStatement : TokenKind → Bool
  | .kwClass | .kwFun | .kwVar | .kwFor | .kwIf | .kwWhile | .kwPrint | .kwReturn | .kwBreak
  | .kwContinue => true
  | _ => false

/-- The tokens from the first boundary on: behind a semicolon, or before a word that begins a statement,
or at the end of the file. `last` is the kind of the token in front of them. -/
def skipToBoundary (last : TokenKind) : List Token → List Token
  | [] => []
  | t :: rest =>
    if t.kind = .eof ∨ last = .semicolon ∨ beginsStatement t.kind then t :: rest
    else skipToBoundary t.kind rest

/-- Where to go on after a fault at the first of the tokens: that token is skipped in any case. -/
def afterFault : List Token → List Token
  | [] => []
  | t :: rest => if t.kind = .eof then t :: rest else skipToBoundary t.kind rest

/-- Runs a rule; if it fails, reports the fault and skips to the next boundary. -/
def recovering (rule : Parser Stmt) : Parser (Option Stmt) := fun s =>
  match rule s with
  | .ok stmt s => .ok (some stmt) s
  | .error fault s => .ok none { s with rest := afterFault s.rest, faults := s.faults.push fault }

/-- A declaration or statement; `none` if it was faulty. -/
def declarationWith (n : Nat) (statement : Parser Stmt) (block : Parser (List Stmt)) :
    Parser (Option Stmt) :=
  recovering do
    match ← acceptWith? declarationLead? with
    | some (.kwClass, _) => classDeclaration n block
    | some (.kwFun, _) => return .function (← function n block "function")
    | some (.kwVar, _) => varDeclaration n
    | none => statementWith n statement block

/-- Declarations up to a closing brace or the end of the file; faulty ones are left out. -/
def declarationsFrom (declaration : Parser (Option Stmt)) : Nat → Parser (List Stmt)
  | 0 => return []
  | n + 1 => do
    if (← check .rightBrace) || (← check .eof) then return []
    else
      let stmt? ← declaration
      return stmt?.toList ++ (← declarationsFrom declaration n)

/-- The rest of a block behind its opening brace. -/
def blockWith (n : Nat) (declaration : Parser (Option Stmt)) : Parser (List Stmt) := do
  let body ← declarationsFrom declaration n
  let _ ← expect .rightBrace "'\x7d' after block"
  return body

mutual

/-- A statement inside another one. -/
def statement : Nat → Parser Stmt
  | 0 => failHere (.expected "expression")
  | n + 1 => statementWith (n + 1) (statement n) (block n)

/-- The rest of a block behind its opening brace. -/
def block : Nat → Parser (List Stmt)
  | 0 => failHere (.expected "'\x7d' after block")
  | n + 1 => blockWith (n + 1) (declarationWith (n + 1) (statement n) (block n))

end

/-- A declaration at the top level or in a block. -/
def declaration (n : Nat) : Parser (Option Stmt) :=
  declarationWith n (statement n) (block n)

/-- Declarations up to the end of the file; a stray closing brace is a fault like any other. -/
def programFrom (declaration : Parser (Option Stmt)) : Nat → Parser (List Stmt)
  | 0 => return []
  | n + 1 => do
    if ← check .eof then return []
    else
      let stmt? ← declaration
      return stmt?.toList ++ (← programFrom declaration n)

end Parser

/-- What parsing yields. -/
structure Parse where
  statements : List Stmt
  faults : List Diagnostic
  /-- The first identity that no node has. -/
  nextId : NodeId

/-- What the rule for whole programs has ended with. -/
def Parse.ofResult : EStateM.Result Diagnostic Parser.State (List Stmt) → Parse
  | .ok statements s => ⟨statements, s.faults.toList, s.nextId⟩
  | .error fault s => ⟨[], (s.faults.push fault).toList, s.nextId⟩

/-- The statements of a token list that ends with the end of the file, and what was reported on the way.
Nodes get identities from `firstId` on. -/
def parse (tokens : List Token) (firstId : NodeId) : Parse :=
  let n := tokens.length
  .ofResult ((Parser.programFrom (Parser.declaration n) n).run ⟨tokens, firstId, #[]⟩)

end LoxLang
