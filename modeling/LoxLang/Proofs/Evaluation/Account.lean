import LoxLang.Proofs.Outcome
import LoxLang.Session

/-!
Evaluation with an account of what happens. The state is a machine with the account beside it, and code runs
in surroundings that the account knows of. A keeper says what is taken down at each step, and what becomes of
the surroundings; the rules of evaluation are the same whatever is taken down. So it is shown once that an
account changes nothing: if each step of a keeper does what the step does by itself, then evaluation does what
it does without an account.
-/

namespace LoxLang

/-- The state of a machine with something beside it. -/
class HasMachine (σ : Type) where
  machine : σ → Machine
  put : Machine → σ → σ
  machine_put : ∀ m s, machine (put m s) = m

/-- The ways to stop that those of a program are among. -/
class HasHalt (ε : Type) where
  halt : Halt → ε

instance : HasHalt Halt :=
  ⟨fun h => h⟩

open HasMachine (machine put machine_put)
open HasHalt (halt)

/-- What a break or continue statement sends to the loop around it. -/
inductive Signal where
  | broke | continued
deriving DecidableEq

/-- How a statement ends that sends a signal. -/
def Signal.completion : Signal → Completion
  | .broke => .broke
  | .continued => .continued

namespace Account

variable {ε σ : Type} [HasMachine σ] [HasHalt ε] {α : Type}

/-- A computation of the machine. -/
def lift (x : Exec α) : EStateM ε σ α := fun s =>
  match x.run (machine s) with
  | .ok a m => .ok a (put m s)
  | .error e m => .error (halt e) (put m s)

/-- Runs a computation in a scope and comes back to the current one, however it ends. -/
def inFrame (frame : FrameId) (x : EStateM ε σ α) : EStateM ε σ α := fun s =>
  let previous := (machine s).current
  match x.run (put { machine s with current := frame } s) with
  | .ok a s => .ok a (put { machine s with current := previous } s)
  | .error e s => .error e (put { machine s with current := previous } s)

variable {s : σ} {value : α → σ → Prop} {fault : ε → σ → Prop}

/-- A computation of the machine ends as it does there, with the machine put back. -/
theorem lift_ends {x : Exec α} (h : Ends x (machine s) (fun a m => value a (put m s))
    fun e m => fault (halt e) (put m s)) : Ends (lift x) s value fault := by
  unfold Ends lift at *
  dsimp only [EStateM.run] at h ⊢
  cases hrun : x (machine s) with
  | ok a m =>
    rw [hrun] at h
    exact h
  | error e m =>
    rw [hrun] at h
    exact h

omit [HasHalt ε] in
/-- A computation in another scope ends as it does there, with the scope in front put back. -/
theorem inFrame_ends {frame : FrameId} {x : EStateM ε σ α}
    (h : Ends x (put { machine s with current := frame } s)
      (fun a s' => value a (put { machine s' with current := (machine s).current } s'))
      fun e s' => fault e (put { machine s' with current := (machine s).current } s')) :
    Ends (inFrame frame x) s value fault := by
  unfold Ends inFrame at *
  dsimp only [EStateM.run] at h ⊢
  cases hrun : x (put { machine s with current := frame } s) with
  | ok a s' =>
    rw [hrun] at h
    exact h
  | error e s' =>
    rw [hrun] at h
    exact h

end Account

open Account (lift inFrame)

/-- What an account takes down at the steps of evaluation, and the surroundings that code runs in. A step
that is not given is done without a word. -/
structure Keeper (κ ε σ : Type) [HasMachine σ] [HasHalt ε] where
  read : κ → Reference → EStateM ε σ Value := fun _ reference => lift (Exec.read reference)
  assign : κ → Reference → Value → EStateM ε σ Unit := fun _ reference v => lift (Exec.assign reference v)
  property : Value → Ident → EStateM ε σ Value := fun v name => lift (Exec.property v name)
  superMethod : κ → NodeId → Position → Ident → EStateM ε σ Value := fun _ id position method =>
    lift (Exec.superMethod id position method)
  callNative : Native → List Value → Position → EStateM ε σ Value := fun f arguments paren =>
    lift (Exec.callNative f arguments paren)
  callArrayMethod : ArrayId → ArrayMethod → Position → List Value → EStateM ε σ Value :=
    fun id method position arguments => lift (Exec.callArrayMethod id method position arguments)
  /-- The instance that a class makes when it is called with some arguments. -/
  newObject : ClassId → List Value → EStateM ε σ ObjectId := fun cls _ =>
    lift (Exec.updateHeap fun h => h.newObject cls)
  /-- The initializer with the instance that it sets up. -/
  bindReceiver : Closure → ObjectId → EStateM ε σ Closure := fun m object =>
    lift (Exec.updateHeap fun h => h.bind m object)
  /-- Runs the body of a function in a new scope that binds its parameters. -/
  runBody : Closure → List Value → (κ → EStateM ε σ Completion) → EStateM ε σ Completion
  declareFunction : κ → FunctionDecl → EStateM ε σ Unit := fun _ declaration => do
    let frame := (machine (← get)).current
    lift (Exec.define declaration.name.name (.function ⟨declaration, frame, false⟩))
  /-- The class that the superclass clause of a class names. -/
  superclassOf : κ → Ident → Reference → EStateM ε σ ClassId := fun _ _ superclass =>
    lift (Exec.superclassOf superclass)
  declareClass : κ → Ident → Option ClassId → List FunctionDecl → EStateM ε σ Unit :=
    fun _ name superclass methods => lift (Exec.declareClass name superclass methods)
  /-- What surrounds the initializer of a variable. -/
  inInitializer : κ → Ident → κ := fun k _ => k
  /-- What surrounds the statements of a block that has got a scope. -/
  inBlock : κ → FrameId → κ := fun k _ => k
  /-- What surrounds the statements behind a statement. -/
  behind : κ → Stmt → κ := fun k _ => k
  /-- A loop statement is executed; what surrounds its parts. -/
  enterLoop : κ → EStateM ε σ κ := fun k => pure k
  /-- The body of a loop has ended; whether the loop has an increment. -/
  endRound : κ → Completion → Bool → EStateM ε σ Unit := fun _ _ _ => pure ()
  /-- The increment of a loop is going to be evaluated. -/
  beginIncrement : κ → EStateM ε σ Unit := fun _ => pure ()
  /-- A break or continue statement is executed. -/
  signal : κ → Signal → EStateM ε σ Unit := fun _ _ => pure ()
  /-- A statement of the program itself has ended. -/
  endStatement : Completion → EStateM ε σ Unit := fun _ => pure ()

namespace Keeper

variable {κ ε σ : Type} [HasMachine σ] [HasHalt ε] (a : Keeper κ ε σ)

/-! ### Evaluation -/

mutual

def evaluate : Nat → κ → Expr → EStateM ε σ Value
  | 0, _, _ => lift Exec.exhausted
  | n + 1, k, e =>
    match e with
    | .constant value => return .ofConstant value
    | .grouping inner => evaluate n k inner
    | .unary op position operand => do
      let v ← evaluate n k operand
      lift (Exec.unary op position v)
    | .binary left op position right => do
      let x ← evaluate n k left
      let y ← evaluate n k right
      lift (Exec.binary op position x y)
    | .logical left op right => do
      let x ← evaluate n k left
      if x.isTruthy == (op == .or) then return x else evaluate n k right
    | .read target => a.read k target
    | .assign target value => do
      let v ← evaluate n k value
      a.assign k target v
      return v
    | .call callee paren arguments => do
      let f ← evaluate n k callee
      let vs ← evaluateAll n k arguments
      call n f vs paren
    | .get object name => do
      let v ← evaluate n k object
      a.property v name
    | .set object name value => do
      match ← evaluate n k object with
      | .object id =>
        let v ← evaluate n k value
        lift (modify fun m => { m with heap := m.heap.setField id name.name v })
        return v
      | _ => lift (Exec.fail name.position .noFields)
    | .this id position => a.read k (.this id position)
    | .super id position method => a.superMethod k id position method

def evaluateAll : Nat → κ → List Expr → EStateM ε σ (List Value)
  | 0, _, _ => lift Exec.exhausted
  | _, _, [] => return []
  | n + 1, k, e :: rest => do
    let v ← evaluate n k e
    let vs ← evaluateAll n k rest
    return v :: vs

/-- The one place where the number of arguments is checked. -/
def call : Nat → Value → List Value → Position → EStateM ε σ Value
  | 0, _, _, _ => lift Exec.exhausted
  | n + 1, callee, arguments, paren => do
    match Exec.arity? (machine (← get)).heap callee with
    | none => lift (Exec.fail paren .notCallable)
    | some arity =>
      if arguments.length ≠ arity then lift (Exec.fail paren (.arity arity arguments.length))
      else match callee with
        | .native f => a.callNative f arguments paren
        | .function f => invoke n f arguments
        | .arrayMethod id method position => a.callArrayMethod id method position arguments
        | .cls id => instantiate n id arguments
        | _ => lift (Exec.fail paren .notCallable)

/-- The initializer is invoked with the arguments of the class as they are. -/
def instantiate : Nat → ClassId → List Value → EStateM ε σ Value
  | 0, _, _ => lift Exec.exhausted
  | n + 1, id, arguments => do
    let object ← a.newObject id arguments
    match (machine (← get)).heap.method? id initializerName with
    | none => return .object object
    | some m =>
      let f ← a.bindReceiver m object
      let _ ← invoke n f arguments
      return .object object

def invoke : Nat → Closure → List Value → EStateM ε σ Value
  | 0, _, _ => lift Exec.exhausted
  | n + 1, f, arguments => do
    let completion ← a.runBody f arguments fun k => executeAll n k f.declaration.body
    if f.isInitializer then
      return ((machine (← get)).heap.ownValue? f.frame thisName).getD .nil
    else match completion with
      | .returned v => return v
      | _ => return .nil

def execute : Nat → κ → Stmt → EStateM ε σ Completion
  | 0, _, _ => lift Exec.exhausted
  | n + 1, k, s =>
    match s with
    | .expression e => do
      let _ ← evaluate n k e
      return .normal
    | .print e => do
      let v ← evaluate n k e
      lift (modify fun m => m.print (v.text m.heap ++ "\n"))
      return .normal
    | .var name none => do
      lift (Exec.define name.name .nil)
      return .normal
    | .var name (some e) => do
      let v ← evaluate n (a.inInitializer k name) e
      lift (Exec.define name.name v)
      return .normal
    | .block body => do
      let frame ← lift (Exec.newFrame (machine (← get)).current [])
      inFrame frame (executeAll n (a.inBlock k frame) body)
    | .ifThen condition thenBranch => do
      let v ← evaluate n k condition
      if v.isTruthy then execute n k thenBranch else return .normal
    | .ifElse condition thenBranch elseBranch => do
      let v ← evaluate n k condition
      if v.isTruthy then execute n k thenBranch else execute n k elseBranch
    | .loop condition body increment => do
      let inner ← a.enterLoop k
      loop n inner condition body increment
    | .breakLoop _ => do
      a.signal k .broke
      return .broke
    | .continueLoop _ => do
      a.signal k .continued
      return .continued
    | .function declaration => do
      a.declareFunction k declaration
      return .normal
    | .returnValue _ none => return .returned .nil
    | .returnValue _ (some e) => do
      let v ← evaluate n k e
      return .returned v
    | .classDecl name none methods => do
      a.declareClass k name none methods
      return .normal
    | .classDecl name (some superclass) methods => do
      let c ← a.superclassOf k name superclass
      a.declareClass k name (some c) methods
      return .normal

/-- The rounds of a loop that are left. -/
def loop : Nat → κ → Expr → Stmt → Option Expr → EStateM ε σ Completion
  | 0, _, _, _, _ => lift Exec.exhausted
  | n + 1, k, condition, body, increment => do
    let v ← evaluate n k condition
    if v.isTruthy then
      let completion ← execute n k body
      a.endRound k completion increment.isSome
      match completion with
      | .broke => return .normal
      | .returned v => return .returned v
      | _ =>
        match increment with
        | none => loop n k condition body increment
        | some e =>
          a.beginIncrement k
          let _ ← evaluate n k e
          loop n k condition body increment
    else return .normal

/-- Statements in order, each in the surroundings behind the ones before it. -/
def executeAll : Nat → κ → List Stmt → EStateM ε σ Completion
  | 0, _, _ => lift Exec.exhausted
  | _, _, [] => return .normal
  | n + 1, k, s :: rest => do
    match ← execute n k s with
    | .normal => executeAll n (a.behind k s) rest
    | completion => return completion

end

/-- Runs the statements of a program in order. -/
def executeProgram (steps : Nat) (k : κ) : List Stmt → EStateM ε σ Unit
  | [] => return
  | s :: rest => do
    let completion ← a.execute steps k s
    a.endStatement completion
    executeProgram steps k rest

end Keeper

end LoxLang
