import LoxLang.Syntax.Parser

/-!
The grammar of programs, said without a parser: which token lists belong to each part of it, and which trees
they stand for. Chains of operators group to the left, tier by tier; assignments group to the right, and what
is assigned to is a variable or a property. An `else` belongs to the nearest `if` that it can belong to, which
is why statements are told apart by whether an `else` behind them would be theirs. Nodes may have any
identities.

program      → declaration* EOF
declaration  → classDecl | funDecl | varDecl | statement
classDecl    → "class" IDENT ( "<" IDENT )? "\x7b" function* "\x7d"
funDecl      → "fun" function
function     → IDENT "(" parameters? ")" block
varDecl      → "var" IDENT ( "=" expression )? ";"
statement    → exprStmt | forStmt | ifStmt | printStmt | returnStmt | whileStmt | breakStmt
             | continueStmt | block
exprStmt     → expression ";"
forStmt      → "for" "(" ( varDecl | exprStmt | ";" ) expression? ";" expression? ")" statement
ifStmt       → "if" "(" expression ")" statement ( "else" statement )?
printStmt    → "print" expression ";"
returnStmt   → "return" expression? ";"
whileStmt    → "while" "(" expression ")" statement
breakStmt    → "break" ";"
continueStmt → "continue" ";"
block        → "\x7b" declaration* "\x7d"
expression   → ( call "." )? IDENT "=" expression | tiers
tiers        → unary, joined by "or", "and", equality, comparison, "+" "-", "*" "/" "%" "\", "^"
unary        → ( "!" | "-" ) unary | call
call         → primary ( "(" arguments? ")" | "." IDENT )*
primary      → NUMBER | STRING | "true" | "false" | "nil" | "this" | IDENT | "(" expression ")"
             | "super" "." IDENT
-/

namespace LoxLang

namespace Grammar

/-- The largest number of parameters and of arguments. -/
def maxList : Nat := 255

/-! ### Words -/

/-- How an operator, written somewhere, joins two operands. -/
abbrev Join := Expr → Position → Expr → Expr

/-- Operators that bind equally. -/
abbrev Tier := List (TokenKind × Join)

def binaryJoin (op : BinaryOp) : Join :=
  fun left position right => .binary left op position right

def logicalJoin (op : LogicalOp) : Join :=
  fun left _ right => .logical left op right

/-- The tiers from the weakest to the strongest. -/
def tiers : List Tier :=
  [ [(.kwOr, logicalJoin .or)],
    [(.kwAnd, logicalJoin .and)],
    [(.bangEqual, binaryJoin .notEqual), (.equalEqual, binaryJoin .equal)],
    [(.greater, binaryJoin (.order .greater)), (.greaterEqual, binaryJoin (.order .greaterEqual)),
      (.less, binaryJoin (.order .less)), (.lessEqual, binaryJoin (.order .lessEqual))],
    [(.minus, binaryJoin (.arithmetic .sub)), (.plus, binaryJoin (.arithmetic .add))],
    [(.slash, binaryJoin (.arithmetic .div)), (.star, binaryJoin (.arithmetic .mul)),
      (.percent, binaryJoin (.arithmetic .rem)), (.backSlash, binaryJoin (.arithmetic .floorDiv))],
    [(.caret, binaryJoin (.arithmetic .pow))] ]

def unaryOperators : List (TokenKind × UnaryOp) :=
  [(.bang, .not), (.minus, .negate)]

/-- The words that are values by themselves. -/
def constants : List (TokenKind × Constant) :=
  [(.kwTrue, .bool true), (.kwFalse, .bool false), (.kwNil, .nil)]

/-- The name that a token spells. -/
def ident (t : Token) : Ident :=
  ⟨t.lexeme, t.position⟩

/-! ### Expressions -/

mutual

inductive Expression : List Token → Expr → Prop
  | value {ts : List Token} {e : Expr} : Chain tiers ts e → Expression ts e
  | assign {name equals : Token} {ts : List Token} {v : Expr} (id : NodeId) :
    name.kind = .identifier → equals.kind = .equal → Expression ts v →
      Expression (name :: equals :: ts) (.assign ⟨id, ident name⟩ v)
  | set {object ts : List Token} {dot name equals : Token} {o v : Expr} :
    Call object o → dot.kind = .dot → name.kind = .identifier → equals.kind = .equal →
      Expression ts v → Expression (object ++ dot :: name :: equals :: ts) (.set o (ident name) v)

/-- Operands joined by operators of some tiers, those of the first one last. -/
inductive Chain : List Tier → List Token → Expr → Prop
  | operand {ts : List Token} {e : Expr} : Unary ts e → Chain [] ts e
  | single {tier : Tier} {stronger : List Tier} {ts : List Token} {e : Expr} :
    Chain stronger ts e → Chain (tier :: stronger) ts e
  | join {tier : Tier} {stronger : List Tier} {left right : List Token} {op : Token} {l r : Expr}
    {f : Join} :
    Chain (tier :: stronger) left l → (op.kind, f) ∈ tier → Chain stronger right r →
      Chain (tier :: stronger) (left ++ op :: right) (f l op.position r)

inductive Unary : List Token → Expr → Prop
  | apply {op : Token} {u : UnaryOp} {ts : List Token} {e : Expr} :
    (op.kind, u) ∈ unaryOperators → Unary ts e → Unary (op :: ts) (.unary u op.position e)
  | call {ts : List Token} {e : Expr} : Call ts e → Unary ts e

inductive Call : List Token → Expr → Prop
  | primary {ts : List Token} {e : Expr} : Primary ts e → Call ts e
  | call {callee ts : List Token} {opening closing : Token} {f : Expr} {es : List Expr} :
    Call callee f → opening.kind = .leftParen → ArgumentList ts es → es.length ≤ maxList →
      closing.kind = .rightParen →
        Call (callee ++ opening :: (ts ++ [closing])) (.call f closing.position es)
  | get {object : List Token} {dot name : Token} {o : Expr} :
    Call object o → dot.kind = .dot → name.kind = .identifier →
      Call (object ++ [dot, name]) (.get o (ident name))

inductive Primary : List Token → Expr → Prop
  | constant {t : Token} {c : Constant} : (t.kind, c) ∈ constants → Primary [t] (.constant c)
  | literal {t : Token} :
    t.kind = .number ∨ t.kind = .string → Primary [t] (.constant (Parser.constantOf t))
  | this {t : Token} (id : NodeId) : t.kind = .kwThis → Primary [t] (.this id t.position)
  | name {t : Token} (id : NodeId) : t.kind = .identifier → Primary [t] (.read ⟨id, ident t⟩)
  | grouping {ts : List Token} {opening closing : Token} {e : Expr} :
    opening.kind = .leftParen → Expression ts e → closing.kind = .rightParen →
      Primary (opening :: (ts ++ [closing])) (.grouping e)
  | super {t dot name : Token} (id : NodeId) :
    t.kind = .kwSuper → dot.kind = .dot → name.kind = .identifier →
      Primary [t, dot, name] (.super id t.position (ident name))

inductive ArgumentList : List Token → List Expr → Prop
  | none : ArgumentList [] []
  | some {ts : List Token} {es : List Expr} : Arguments ts es → ArgumentList ts es

inductive Arguments : List Token → List Expr → Prop
  | last {ts : List Token} {e : Expr} : Expression ts e → Arguments ts [e]
  | more {ts rest : List Token} {comma : Token} {e : Expr} {es : List Expr} :
    Expression ts e → comma.kind = .comma → Arguments rest es →
      Arguments (ts ++ comma :: rest) (e :: es)

end

/-- An expression that may be left out. -/
inductive Optional : List Token → Option Expr → Prop
  | none : Optional [] none
  | some {ts : List Token} {e : Expr} : Expression ts e → Optional ts (some e)

/-! ### Statements -/

/-- The value that a declaration gives to its variable. -/
inductive Initializer : List Token → Option Expr → Prop
  | none : Initializer [] none
  | some {equals : Token} {ts : List Token} {e : Expr} :
    equals.kind = .equal → Expression ts e → Initializer (equals :: ts) (some e)

inductive VarDeclaration : List Token → Stmt → Prop
  | mk {keyword name semicolon : Token} {ts : List Token} {value : Option Expr} :
    keyword.kind = .kwVar → name.kind = .identifier → Initializer ts value →
      semicolon.kind = .semicolon →
        VarDeclaration (keyword :: name :: (ts ++ [semicolon])) (.var (ident name) value)

/-- The first clause of a `for` statement. -/
inductive ForInitializer : List Token → Option Stmt → Prop
  | none {semicolon : Token} : semicolon.kind = .semicolon → ForInitializer [semicolon] none
  | var {ts : List Token} {s : Stmt} : VarDeclaration ts s → ForInitializer ts (some s)
  | expression {ts : List Token} {semicolon : Token} {e : Expr} :
    Expression ts e → semicolon.kind = .semicolon →
      ForInitializer (ts ++ [semicolon]) (some (.expression e))

/-- What a `for` statement stands for: a loop with an increment, in a block with its initializer if it has
one. A condition that is left out is true. -/
def forTree (initializer : Option Stmt) (condition increment : Option Expr) (body : Stmt) : Stmt :=
  let loop := .loop (condition.getD (.constant (.bool true))) body increment
  match initializer with
  | some s => .block [s, loop]
  | none => loop

inductive Parameters : List Token → List Ident → Prop
  | last {name : Token} : name.kind = .identifier → Parameters [name] [ident name]
  | more {name comma : Token} {rest : List Token} {names : List Ident} :
    name.kind = .identifier → comma.kind = .comma → Parameters rest names →
      Parameters (name :: comma :: rest) (ident name :: names)

inductive ParameterList : List Token → List Ident → Prop
  | none : ParameterList [] []
  | some {ts : List Token} {names : List Ident} : Parameters ts names → ParameterList ts names

/-- The superclass clause of a class declaration. -/
inductive Superclass : List Token → Option Reference → Prop
  | none : Superclass [] none
  | some {less name : Token} (id : NodeId) :
    less.kind = .less → name.kind = .identifier → Superclass [less, name] (some ⟨id, ident name⟩)

mutual

/-- Statements. The flag tells whether an `else` behind the statement would belong to it. -/
inductive Statement : Bool → List Token → Stmt → Prop
  | expression {ts : List Token} {semicolon : Token} {e : Expr} :
    Expression ts e → semicolon.kind = .semicolon → Statement false (ts ++ [semicolon]) (.expression e)
  | print {keyword semicolon : Token} {ts : List Token} {e : Expr} :
    keyword.kind = .kwPrint → Expression ts e → semicolon.kind = .semicolon →
      Statement false (keyword :: (ts ++ [semicolon])) (.print e)
  | returnValue {keyword semicolon : Token} {ts : List Token} {e : Option Expr} :
    keyword.kind = .kwReturn → Optional ts e → semicolon.kind = .semicolon →
      Statement false (keyword :: (ts ++ [semicolon])) (.returnValue keyword.position e)
  | breakLoop {keyword semicolon : Token} :
    keyword.kind = .kwBreak → semicolon.kind = .semicolon →
      Statement false [keyword, semicolon] (.breakLoop keyword.position)
  | continueLoop {keyword semicolon : Token} :
    keyword.kind = .kwContinue → semicolon.kind = .semicolon →
      Statement false [keyword, semicolon] (.continueLoop keyword.position)
  | block {opening : Token} {ts : List Token} {body : List Stmt} :
    opening.kind = .leftBrace → Block ts body → Statement false (opening :: ts) (.block body)
  | ifThen {flag : Bool} {keyword opening closing : Token} {condition ts : List Token} {c : Expr}
    {s : Stmt} :
    keyword.kind = .kwIf → opening.kind = .leftParen → Expression condition c →
      closing.kind = .rightParen → Statement flag ts s →
        Statement true (keyword :: opening :: (condition ++ closing :: ts)) (.ifThen c s)
  | ifElse {flag : Bool} {keyword opening closing otherwise : Token} {condition first second : List Token}
    {c : Expr} {s t : Stmt} :
    keyword.kind = .kwIf → opening.kind = .leftParen → Expression condition c →
      closing.kind = .rightParen → Statement false first s → otherwise.kind = .kwElse →
        Statement flag second t →
          Statement flag (keyword :: opening :: (condition ++ closing :: (first ++ otherwise :: second)))
            (.ifElse c s t)
  | whileLoop {flag : Bool} {keyword opening closing : Token} {condition ts : List Token} {c : Expr}
    {s : Stmt} :
    keyword.kind = .kwWhile → opening.kind = .leftParen → Expression condition c →
      closing.kind = .rightParen → Statement flag ts s →
        Statement flag (keyword :: opening :: (condition ++ closing :: ts)) (.loop c s none)
  | forLoop {flag : Bool} {keyword opening semicolon closing : Token}
    {initializer condition increment ts : List Token} {i : Option Stmt} {c k : Option Expr} {s : Stmt} :
    keyword.kind = .kwFor → opening.kind = .leftParen → ForInitializer initializer i →
      Optional condition c → semicolon.kind = .semicolon → Optional increment k →
        closing.kind = .rightParen → Statement flag ts s →
          Statement flag (keyword :: opening ::
            (initializer ++ (condition ++ semicolon :: (increment ++ closing :: ts)))) (forTree i c k s)

/-- The rest of a block behind its opening brace. -/
inductive Block : List Token → List Stmt → Prop
  | mk {ts : List Token} {closing : Token} {body : List Stmt} :
    Declarations ts body → closing.kind = .rightBrace → Block (ts ++ [closing]) body

inductive Declarations : List Token → List Stmt → Prop
  | nil : Declarations [] []
  | cons {ts rest : List Token} {s : Stmt} {body : List Stmt} :
    Declaration ts s → Declarations rest body → Declarations (ts ++ rest) (s :: body)

inductive Declaration : List Token → Stmt → Prop
  | statement {flag : Bool} {ts : List Token} {s : Stmt} : Statement flag ts s → Declaration ts s
  | var {ts : List Token} {s : Stmt} : VarDeclaration ts s → Declaration ts s
  | function {keyword : Token} {ts : List Token} {d : FunctionDecl} :
    keyword.kind = .kwFun → Function ts d → Declaration (keyword :: ts) (.function d)
  | classDecl {keyword name opening closing : Token} {clause ts : List Token} {r : Option Reference}
    {methods : List FunctionDecl} :
    keyword.kind = .kwClass → name.kind = .identifier → Superclass clause r →
      opening.kind = .leftBrace → Methods ts methods → closing.kind = .rightBrace →
        Declaration (keyword :: name :: (clause ++ opening :: (ts ++ [closing])))
          (.classDecl (ident name) r methods)

/-- A function behind its keyword, or a method. -/
inductive Function : List Token → FunctionDecl → Prop
  | mk {name opening closing brace : Token} {ts rest : List Token} {names : List Ident}
    {body : List Stmt} (id : NodeId) :
    name.kind = .identifier → opening.kind = .leftParen → ParameterList ts names →
      names.length ≤ maxList → closing.kind = .rightParen → brace.kind = .leftBrace →
        Block rest body →
          Function (name :: opening :: (ts ++ closing :: brace :: rest)) ⟨id, ident name, names, body⟩

inductive Methods : List Token → List FunctionDecl → Prop
  | nil : Methods [] []
  | cons {ts rest : List Token} {d : FunctionDecl} {ds : List FunctionDecl} :
    Function ts d → Methods rest ds → Methods (ts ++ rest) (d :: ds)

end

/-- A whole program, with the end of the file behind it. -/
inductive Program : List Token → List Stmt → Prop
  | mk {ts : List Token} {last : Token} {body : List Stmt} :
    Declarations ts body → last.kind = .eof → Program (ts ++ [last]) body

end Grammar

end LoxLang
