import LoxLang.Machine
import LoxLang.Native.Call
import LoxLang.Value.ArrayMethod
import LoxLang.Value.Equality
import LoxLang.Value.Text

/-!
Running programs. Expressions yield values and statements yield completions; a completion other than a
normal one travels outwards to the loop or call it is meant for, and a failure ends the run. Evaluation is
from left to right. The first argument of each rule bounds the depth of the evaluation that is left, where
a round of a loop counts as a level; a rule that runs out of it is exhausted, and with more of it every
other outcome stays the same.
-/

namespace LoxLang

/-! ### Operators -/

/-- Whether a comparison holds of numbers in an order. -/
def Comparison.holds : Comparison → Ordering → Bool
  | .less, o => o == .lt
  | .lessEqual, o => o != .gt
  | .greater, o => o == .gt
  | .greaterEqual, o => o != .lt

namespace Exec

/-- The result of a unary operator. -/
def unary (op : UnaryOp) (position : Position) (v : Value) : Exec Value :=
  match op, v with
  | .not, v => return .bool (!v.isTruthy)
  | .negate, .number n => return .number n.neg
  | .negate, _ => fail position .operandsNotNumbers

/-- The result of a binary operator. -/
def binary (op : BinaryOp) (position : Position) (left right : Value) : Exec Value :=
  match op, left, right with
  | .equal, a, b => return .bool (a.equal (← get).heap b)
  | .notEqual, a, b => return .bool (!a.equal (← get).heap b)
  | .arithmetic .add, .string a, .string b => return .string (a ++ b)
  | .arithmetic op, .number a, .number b => return .number (op.apply a b)
  | .arithmetic .add, _, _ => fail position .operandsNotAddable
  | .order c, .number a, .number b =>
    return .bool (((a.compare? b).map c.holds).getD false)
  | _, _, _ => fail position .operandsNotNumbers

/-! ### Variables and properties -/

/-- The value of a variable: at the recorded distance, or else global. -/
def lookUp? (m : Machine) (reference : Reference) : Option Value :=
  match m.hops.find? reference.id with
  | some hops => m.heap.getAt? m.current hops reference.ident.name
  | none => m.heap.get? .globals reference.ident.name

/-- The heap with the value of a variable changed, which has to be bound already. -/
def reassign? (m : Machine) (reference : Reference) (v : Value) : Option Heap :=
  match m.hops.find? reference.id with
  | some hops => m.heap.assignAt? m.current hops reference.ident.name v
  | none => m.heap.assign? .globals reference.ident.name v

def read (reference : Reference) : Exec Value := do
  match lookUp? (← get) reference with
  | some v => return v
  | none => fail reference.ident.position (.undefinedVariable reference.ident.name)

def assign (reference : Reference) (v : Value) : Exec Unit := do
  let m ← get
  match reassign? m reference v with
  | some heap => set { m with heap := heap }
  | none => fail reference.ident.position (.undefinedVariable reference.ident.name)

/-- A method of a class with a receiver. -/
def bindMethod (cls : ClassId) (name : Ident) (receiver : ObjectId) : Exec Value := do
  match (← get).heap.method? cls name.name with
  | some m => return .function (← updateHeap fun h => h.bind m receiver)
  | none => fail name.position (.undefinedProperty name.name)

/-- A property: a field of an instance, or else a method of its class; or a method of an array. -/
def property (v : Value) (name : Ident) : Exec Value := do
  match v with
  | .object id =>
    match (← get).heap.object? id with
    | none => fail name.position (.undefinedProperty name.name)
    | some o =>
      match o.fields.lookup name.name with
      | some v => return v
      | none => bindMethod o.cls name id
  | .array id =>
    match ArrayMethod.ofName? name.name with
    | some m => return .arrayMethod id m name.position
    | none => fail name.position (.undefinedMethod name.name)
  | _ => fail name.position .noProperties

/-- What `this` is in the scope just inside the one at a distance. -/
def receiver? (m : Machine) (hops : Nat) : Option Value :=
  match hops with
  | 0 => none
  | inner + 1 => m.heap.getAt? m.current inner thisName

/-- A method of the superclass of the class around the code, with the receiver of the method around it.
The scope that binds `this` lies just inside the one that binds `super`. -/
def superMethod (id : NodeId) (position : Position) (method : Ident) : Exec Value := do
  let m ← get
  match m.hops.find? id with
  | none => fail position (.undefinedVariable superName)
  | some hops =>
    match m.heap.getAt? m.current hops superName with
    | some (.cls cls) =>
      match receiver? m hops with
      | some (.object receiver) => bindMethod cls method receiver
      | _ => fail position (.undefinedVariable thisName)
    | _ => fail position (.undefinedVariable superName)

/-! ### Calls -/

/-- How many arguments a value takes, if it can be called. -/
def arity? (h : Heap) : Value → Option Nat
  | .native f => some f.arity
  | .function f => some f.declaration.parameters.length
  | .cls id =>
    some (((h.method? id initializerName).map (·.declaration.parameters.length)).getD 0)
  | .arrayMethod _ m _ => some m.arity
  | _ => none

/-- Calls a native function; its faults are reported at the call. -/
def callNative (f : Native) (arguments : List Value) (paren : Position) : Exec Value := fun m =>
  match f.run arguments m with
  | .ok v m => .ok v m
  | .error fault m => .error (.failed ⟨paren, .runtime (.native fault), none⟩) m

/-- Calls a method of an array; its faults are reported where it was looked up. -/
def callArrayMethod (id : ArrayId) (method : ArrayMethod) (position : Position)
    (arguments : List Value) : Exec Value := fun m =>
  match method.run m.heap id arguments with
  | .ok (v, heap) => .ok v { m with heap := heap }
  | .error fault => .error (.failed ⟨position, .runtime (.native fault), none⟩) m

/-- The names of parameters with the arguments of a call. -/
def argumentBindings (parameters : List Ident) (arguments : List Value) : Bindings Value :=
  (parameters.zip arguments).foldl (fun bindings b => bindings.put b.1.name b.2) []

/-! ### Classes -/

/-- The methods of a class; of two methods with one name the later one counts. -/
def methodBindings (frame : FrameId) (methods : List FunctionDecl) : Bindings Closure :=
  methods.foldl (fun bindings m =>
    bindings.put m.name.name ⟨m, frame, decide (m.name.name = initializerName)⟩) []

/-- Declares a class. The methods of a class with a superclass see a scope that binds `super`. -/
def declareClass (name : Ident) (superclass : Option ClassId) (methods : List FunctionDecl) :
    Exec Unit := do
  define name.name .nil
  let current := (← get).current
  let frame ← match superclass with
    | some c => newFrame current [(superName, .cls c)]
    | none => pure current
  let cls ← updateHeap fun h => h.newClass ⟨name.name, superclass, methodBindings frame methods⟩
  define name.name (.cls cls)

/-- The class that a superclass clause names. -/
def superclassOf (reference : Reference) : Exec ClassId := do
  match ← read reference with
  | .cls id => return id
  | _ => fail reference.ident.position .superclassNotClass

end Exec

open Exec

mutual

def evaluate : Nat → Expr → Exec Value
  | 0, _ => exhausted
  | n + 1, e =>
    match e with
    | .constant value => return .ofConstant value
    | .grouping inner => evaluate n inner
    | .unary op position operand => do
      let v ← evaluate n operand
      unary op position v
    | .binary left op position right => do
      let a ← evaluate n left
      let b ← evaluate n right
      binary op position a b
    | .logical left op right => do
      let a ← evaluate n left
      if a.isTruthy == (op == .or) then return a else evaluate n right
    | .read target => read target
    | .assign target value => do
      let v ← evaluate n value
      assign target v
      return v
    | .call callee paren arguments => do
      let f ← evaluate n callee
      let vs ← evaluateAll n arguments
      call n f vs paren
    | .get object name => do
      let v ← evaluate n object
      property v name
    | .set object name value => do
      match ← evaluate n object with
      | .object id =>
        let v ← evaluate n value
        modify fun m => { m with heap := m.heap.setField id name.name v }
        return v
      | _ => fail name.position .noFields
    | .this id position => read (.this id position)
    | .super id position method => superMethod id position method

/-- The values of expressions from left to right. -/
def evaluateAll : Nat → List Expr → Exec (List Value)
  | 0, _ => exhausted
  | _, [] => return []
  | n + 1, e :: rest => do
    let v ← evaluate n e
    let vs ← evaluateAll n rest
    return v :: vs

/-- Calls a value with some arguments, whose number has to be right. -/
def call : Nat → Value → List Value → Position → Exec Value
  | 0, _, _, _ => exhausted
  | n + 1, callee, arguments, paren => do
    match arity? (← get).heap callee with
    | none => fail paren .notCallable
    | some arity =>
      if arguments.length ≠ arity then fail paren (.arity arity arguments.length)
      else match callee with
        | .native f => callNative f arguments paren
        | .function f => invoke n f arguments
        | .arrayMethod id method position => callArrayMethod id method position arguments
        | .cls id => instantiate n id arguments
        | _ => fail paren .notCallable

/-- Makes an instance of a class, and sets it up by the class's initializer if it has one. -/
def instantiate : Nat → ClassId → List Value → Exec Value
  | 0, _, _ => exhausted
  | n + 1, id, arguments => do
    let object ← updateHeap fun h => h.newObject id
    match (← get).heap.method? id initializerName with
    | none => return .object object
    | some m =>
      let f ← updateHeap fun h => h.bind m object
      let _ ← invoke n f arguments
      return .object object

/-- Runs the body of a function in a new scope that binds its parameters. -/
def invoke : Nat → Closure → List Value → Exec Value
  | 0, _, _ => exhausted
  | n + 1, f, arguments => do
    let frame ← newFrame f.frame (argumentBindings f.declaration.parameters arguments)
    let completion ← inFrame frame (executeAll n f.declaration.body)
    if f.isInitializer then
      return ((← get).heap.ownValue? f.frame thisName).getD .nil
    else match completion with
      | .returned v => return v
      | _ => return .nil

def execute : Nat → Stmt → Exec Completion
  | 0, _ => exhausted
  | n + 1, s =>
    match s with
    | .expression e => do
      let _ ← evaluate n e
      return .normal
    | .print e => do
      let v ← evaluate n e
      modify fun m => m.print (v.text m.heap ++ "\n")
      return .normal
    | .var name none => do
      define name.name .nil
      return .normal
    | .var name (some e) => do
      let v ← evaluate n e
      define name.name v
      return .normal
    | .block body => do
      let frame ← newFrame (← get).current []
      inFrame frame (executeAll n body)
    | .ifThen condition thenBranch => do
      let v ← evaluate n condition
      if v.isTruthy then execute n thenBranch else return .normal
    | .ifElse condition thenBranch elseBranch => do
      let v ← evaluate n condition
      if v.isTruthy then execute n thenBranch else execute n elseBranch
    | .loop condition body increment => loop n condition body increment
    | .breakLoop _ => return .broke
    | .continueLoop _ => return .continued
    | .function declaration => do
      let frame := (← get).current
      define declaration.name.name (.function ⟨declaration, frame, false⟩)
      return .normal
    | .returnValue _ none => return .returned .nil
    | .returnValue _ (some e) => do
      let v ← evaluate n e
      return .returned v
    | .classDecl name none methods => do
      declareClass name none methods
      return .normal
    | .classDecl name (some superclass) methods => do
      let c ← superclassOf superclass
      declareClass name (some c) methods
      return .normal

/-- The rounds of a loop that are left. -/
def loop : Nat → Expr → Stmt → Option Expr → Exec Completion
  | 0, _, _, _ => exhausted
  | n + 1, condition, body, increment => do
    let v ← evaluate n condition
    if v.isTruthy then
      match ← execute n body with
      | .broke => return .normal
      | .returned v => return .returned v
      | _ =>
        match increment with
        | none => loop n condition body increment
        | some e =>
          let _ ← evaluate n e
          loop n condition body increment
    else return .normal

/-- Statements in order, up to the first one that does not complete normally. -/
def executeAll : Nat → List Stmt → Exec Completion
  | 0, _ => exhausted
  | _, [] => return .normal
  | n + 1, s :: rest => do
    match ← execute n s with
    | .normal => executeAll n rest
    | completion => return completion

end

end LoxLang
