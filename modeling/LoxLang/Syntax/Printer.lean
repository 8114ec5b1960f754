import LoxLang.Syntax.Basic

/-!
Syntax trees as text: a parenthesised form with the operator in front, such as `(+ 1 (group 2))`.
-/

namespace LoxLang

def UnaryOp.symbol : UnaryOp → String
  | not => "!"
  | negate => "-"

def Comparison.symbol : Comparison → String
  | less => "<"
  | lessEqual => "<="
  | greater => ">"
  | greaterEqual => ">="

def Arithmetic.symbol : Arithmetic → String
  | add => "+"
  | sub => "-"
  | mul => "*"
  | div => "/"
  | floorDiv => "\\"
  | rem => "%"
  | pow => "^"

def BinaryOp.symbol : BinaryOp → String
  | equal => "=="
  | notEqual => "!="
  | order c => c.symbol
  | arithmetic op => op.symbol

def LogicalOp.symbol : LogicalOp → String
  | and => "and"
  | or => "or"

def Constant.text : Constant → String
  | nil => "nil"
  | bool b => if b then "true" else "false"
  | number n => n.text
  | string s => s

mutual

def Expr.text : Expr → String
  | .constant value => value.text
  | .grouping inner => "(group " ++ inner.text ++ ")"
  | .unary op _ operand => "(" ++ op.symbol ++ " " ++ operand.text ++ ")"
  | .binary left op _ right => "(" ++ op.symbol ++ " " ++ left.text ++ " " ++ right.text ++ ")"
  | .logical left op right => "(" ++ op.symbol ++ " " ++ left.text ++ " " ++ right.text ++ ")"
  | .read target => target.ident.name
  | .assign target value => "(= " ++ target.ident.name ++ " " ++ value.text ++ ")"
  | .call callee _ arguments => "(call " ++ callee.text ++ Expr.listText arguments ++ ")"
  | .get object property => "(. " ++ object.text ++ " " ++ property.name ++ ")"
  | .set object property value =>
    "(set " ++ object.text ++ " " ++ property.name ++ " " ++ value.text ++ ")"
  | .this _ _ => thisName
  | .super _ _ method => "(super " ++ method.name ++ ")"

/-- The expressions, each behind a space. -/
def Expr.listText : List Expr → String
  | [] => ""
  | e :: rest => " " ++ e.text ++ Expr.listText rest

end

mutual

def Stmt.text : Stmt → String
  | .expression e => "(; " ++ e.text ++ ")"
  | .print e => "(print " ++ e.text ++ ")"
  | .var name none => "(var " ++ name.name ++ ")"
  | .var name (some e) => "(var " ++ name.name ++ " " ++ e.text ++ ")"
  | .block body => "(block" ++ Stmt.listText body ++ ")"
  | .ifThen condition thenBranch => "(if " ++ condition.text ++ " " ++ thenBranch.text ++ ")"
  | .ifElse condition thenBranch elseBranch =>
    "(if-else " ++ condition.text ++ " " ++ thenBranch.text ++ " " ++ elseBranch.text ++ ")"
  | .loop condition body none => "(while " ++ condition.text ++ " " ++ body.text ++ ")"
  | .loop condition body (some increment) =>
    "(while " ++ condition.text ++ " " ++ body.text ++ " " ++ increment.text ++ ")"
  | .breakLoop _ => "(break)"
  | .continueLoop _ => "(continue)"
  | .function declaration => declaration.text
  | .returnValue _ none => "(return)"
  | .returnValue _ (some e) => "(return " ++ e.text ++ ")"
  | .classDecl name superclass methods =>
    "(class " ++ name.name ++ ((superclass.map fun c => " < " ++ c.ident.name).getD "") ++
      FunctionDecl.listText methods ++ ")"

def FunctionDecl.text : FunctionDecl → String
  | ⟨_, name, parameters, body⟩ =>
    "(fun " ++ name.name ++ "(" ++ " ".intercalate (parameters.map Ident.name) ++ ")" ++
      Stmt.listText body ++ ")"

/-- The statements, each behind a space. -/
def Stmt.listText : List Stmt → String
  | [] => ""
  | s :: rest => " " ++ s.text ++ Stmt.listText rest

/-- The methods, each behind a space. -/
def FunctionDecl.listText : List FunctionDecl → String
  | [] => ""
  | m :: rest => " " ++ m.text ++ FunctionDecl.listText rest

end

end LoxLang
