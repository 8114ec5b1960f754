import LoxLang.Evaluator

/-!
The steps of evaluation. A task is one application of a rule. It begins in a state, and comes in states that
follow to other tasks, its parts, whether it ends well in the end or not.
-/

namespace LoxLang

open Exec

/-- Something to be evaluated; the number bounds the depth that is left. -/
inductive Task where
  | evaluate (fuel : Nat) (e : Expr)
  | evaluateAll (fuel : Nat) (es : List Expr)
  /-- A property is read. -/
  | property (v : Value) (name : Ident)
  | call (fuel : Nat) (callee : Value) (arguments : List Value) (paren : Position)
  | instantiate (fuel : Nat) (id : ClassId) (arguments : List Value)
  | invoke (fuel : Nat) (f : Closure) (arguments : List Value)
  | execute (fuel : Nat) (s : Stmt)
  | loop (fuel : Nat) (condition : Expr) (body : Stmt) (increment : Option Expr)
  | executeAll (fuel : Nat) (body : List Stmt)

/-- A task that begins in a state comes to a part of it in a state. -/
inductive Leads : Task → Machine → Task → Machine → Prop where
  | grouping {n inner m} : Leads (.evaluate (n + 1) (.grouping inner)) m (.evaluate n inner) m
  | unary {n op position operand m} :
    Leads (.evaluate (n + 1) (.unary op position operand)) m (.evaluate n operand) m
  | binaryLeft {n left op position right m} :
    Leads (.evaluate (n + 1) (.binary left op position right)) m (.evaluate n left) m
  | binaryRight {n left op position right m v m'} (hleft : (evaluate n left).run m = .ok v m') :
    Leads (.evaluate (n + 1) (.binary left op position right)) m (.evaluate n right) m'
  | logicalLeft {n left op right m} :
    Leads (.evaluate (n + 1) (.logical left op right)) m (.evaluate n left) m
  | logicalRight {n left op right m v m'} (hleft : (evaluate n left).run m = .ok v m')
    (hv : (v.isTruthy == (op == .or)) = false) :
    Leads (.evaluate (n + 1) (.logical left op right)) m (.evaluate n right) m'
  | assign {n target value m} : Leads (.evaluate (n + 1) (.assign target value)) m (.evaluate n value) m
  | callee {n callee paren arguments m} :
    Leads (.evaluate (n + 1) (.call callee paren arguments)) m (.evaluate n callee) m
  | arguments {n callee paren arguments m f m'} (hcallee : (evaluate n callee).run m = .ok f m') :
    Leads (.evaluate (n + 1) (.call callee paren arguments)) m (.evaluateAll n arguments) m'
  | call {n callee paren arguments m f m₁ vs m'} (hcallee : (evaluate n callee).run m = .ok f m₁)
    (harguments : (evaluateAll n arguments).run m₁ = .ok vs m') :
    Leads (.evaluate (n + 1) (.call callee paren arguments)) m (.call n f vs paren) m'
  | getObject {n object name m} : Leads (.evaluate (n + 1) (.get object name)) m (.evaluate n object) m
  | property {n object name m v m'} (hobject : (evaluate n object).run m = .ok v m') :
    Leads (.evaluate (n + 1) (.get object name)) m (.property v name) m'
  | setObject {n object name value m} :
    Leads (.evaluate (n + 1) (.set object name value)) m (.evaluate n object) m
  | setValue {n object name value m id m'} (hobject : (evaluate n object).run m = .ok (.object id) m') :
    Leads (.evaluate (n + 1) (.set object name value)) m (.evaluate n value) m'
  | head {n e rest m} : Leads (.evaluateAll (n + 1) (e :: rest)) m (.evaluate n e) m
  | tail {n e rest m v m'} (hhead : (evaluate n e).run m = .ok v m') :
    Leads (.evaluateAll (n + 1) (e :: rest)) m (.evaluateAll n rest) m'
  | function {n f arguments paren m} (harity : arguments.length = f.declaration.parameters.length) :
    Leads (.call (n + 1) (.function f) arguments paren) m (.invoke n f arguments) m
  | cls {n id arguments paren m} (harity : arity? m.heap (.cls id) = some arguments.length) :
    Leads (.call (n + 1) (.cls id) arguments paren) m (.instantiate n id arguments) m
  | initializer {n id arguments m method}
    (hmethod : (m.heap.newObject id).2.method? id initializerName = some method) :
    Leads (.instantiate (n + 1) id arguments) m
      (.invoke n ((m.heap.newObject id).2.bind method (m.heap.newObject id).1).1 arguments)
      { m with heap := ((m.heap.newObject id).2.bind method (m.heap.newObject id).1).2 }
  | body {n f arguments m} :
    Leads (.invoke (n + 1) f arguments) m (.executeAll n f.declaration.body)
      { m with
        heap := (m.heap.newFrame (some f.frame) (argumentBindings f.declaration.parameters arguments)).2
        current := (m.heap.newFrame (some f.frame)
          (argumentBindings f.declaration.parameters arguments)).1 }
  | expression {n e m} : Leads (.execute (n + 1) (.expression e)) m (.evaluate n e) m
  | print {n e m} : Leads (.execute (n + 1) (.print e)) m (.evaluate n e) m
  | initialValue {n name e m} : Leads (.execute (n + 1) (.var name (some e))) m (.evaluate n e) m
  | block {n body m} :
    Leads (.execute (n + 1) (.block body)) m (.executeAll n body)
      { m with
        heap := (m.heap.newFrame (some m.current) []).2
        current := (m.heap.newFrame (some m.current) []).1 }
  | ifCondition {n condition thenBranch m} :
    Leads (.execute (n + 1) (.ifThen condition thenBranch)) m (.evaluate n condition) m
  | ifThen {n condition thenBranch m v m'} (hcondition : (evaluate n condition).run m = .ok v m')
    (hv : v.isTruthy = true) :
    Leads (.execute (n + 1) (.ifThen condition thenBranch)) m (.execute n thenBranch) m'
  | ifElseCondition {n condition thenBranch elseBranch m} :
    Leads (.execute (n + 1) (.ifElse condition thenBranch elseBranch)) m (.evaluate n condition) m
  | ifElseThen {n condition thenBranch elseBranch m v m'}
    (hcondition : (evaluate n condition).run m = .ok v m') (hv : v.isTruthy = true) :
    Leads (.execute (n + 1) (.ifElse condition thenBranch elseBranch)) m (.execute n thenBranch) m'
  | ifElseElse {n condition thenBranch elseBranch m v m'}
    (hcondition : (evaluate n condition).run m = .ok v m') (hv : v.isTruthy = false) :
    Leads (.execute (n + 1) (.ifElse condition thenBranch elseBranch)) m (.execute n elseBranch) m'
  | loop {n condition body increment m} :
    Leads (.execute (n + 1) (.loop condition body increment)) m (.loop n condition body increment) m
  | returnValue {n position e m} :
    Leads (.execute (n + 1) (.returnValue position (some e))) m (.evaluate n e) m
  | loopCondition {n condition body increment m} :
    Leads (.loop (n + 1) condition body increment) m (.evaluate n condition) m
  | loopBody {n condition body increment m v m'} (hcondition : (evaluate n condition).run m = .ok v m')
    (hv : v.isTruthy = true) :
    Leads (.loop (n + 1) condition body increment) m (.execute n body) m'
  | increment {n condition body e m v m₁ c m'} (hcondition : (evaluate n condition).run m = .ok v m₁)
    (hv : v.isTruthy = true) (hbody : (execute n body).run m₁ = .ok c m') (hc : c = .normal ∨ c = .continued) :
    Leads (.loop (n + 1) condition body (some e)) m (.evaluate n e) m'
  | again {n condition body m v m₁ c m'} (hcondition : (evaluate n condition).run m = .ok v m₁)
    (hv : v.isTruthy = true) (hbody : (execute n body).run m₁ = .ok c m') (hc : c = .normal ∨ c = .continued) :
    Leads (.loop (n + 1) condition body none) m (.loop n condition body none) m'
  | incremented {n condition body e m v m₁ c m₂ u m'} (hcondition : (evaluate n condition).run m = .ok v m₁)
    (hv : v.isTruthy = true) (hbody : (execute n body).run m₁ = .ok c m₂) (hc : c = .normal ∨ c = .continued)
    (hincrement : (evaluate n e).run m₂ = .ok u m') :
    Leads (.loop (n + 1) condition body (some e)) m (.loop n condition body (some e)) m'
  | first {n s rest m} : Leads (.executeAll (n + 1) (s :: rest)) m (.execute n s) m
  | next {n s rest m m'} (hfirst : (execute n s).run m = .ok .normal m') :
    Leads (.executeAll (n + 1) (s :: rest)) m (.executeAll n rest) m'

end LoxLang
