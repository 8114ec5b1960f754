import LoxLang.Proofs.Evaluation.Faithful

/-!
Evaluation with a log of how control moves: which signals are sent by break and continue statements and from
inside which loops, how the rounds of loops end, when increments are evaluated, and how functions and the
statements of a program end. Each execution of a loop statement has a number. Statements are executed inside
a list of loops, those that their own function has entered and not left; the body of a function begins
outside all of them.

The log changes nothing in what a program does, because each step of its keeper does what it does anyhow.
-/

namespace LoxLang

/-- An execution of a loop statement. -/
abbrev LoopId := Nat

inductive Movement where
  /-- A break or continue statement is executed inside some loops of its function, innermost first. -/
  | signal (s : Signal) (loops : List LoopId)
  /-- The body of a loop has ended; `increments` tells whether the loop has an increment. -/
  | round (loop : LoopId) (completion : Completion) (increments : Bool)
  /-- The increment of a loop is going to be evaluated. -/
  | increment (loop : LoopId)
  /-- The body of a function has ended. -/
  | body (completion : Completion)
  /-- A statement of the program itself has ended. -/
  | statement (completion : Completion)

/-- A machine with the log of what has happened, latest last. -/
structure Trace where
  machine : Machine
  /-- How many loop statements have been executed. -/
  entered : Nat
  log : List Movement

instance : HasMachine Trace :=
  ⟨Trace.machine, fun m t => { t with machine := m }, fun _ _ => rfl⟩

/-- A computation of evaluation with a log. -/
abbrev Traced := EStateM Halt Trace

namespace Traced

open Account (lift inFrame)

def record (e : Movement) : Traced Unit :=
  modify fun t => { t with log := t.log ++ [e] }

/-- Gives a number to the execution of a loop statement. -/
def enter : Traced LoopId := fun t =>
  .ok t.entered { t with entered := t.entered + 1 }

/-- What is logged. The loops around a statement are those that its own function has entered, innermost
first, and the body of a function begins outside the loops of its caller. -/
def keeper : Keeper (List LoopId) Halt Trace where
  runBody f arguments run := do
    let frame ← lift (Exec.newFrame f.frame (Exec.argumentBindings f.declaration.parameters arguments))
    let completion ← inFrame frame (run [])
    record (.body completion)
    return completion
  enterLoop loops := do
    let l ← enter
    return l :: loops
  endRound
    | l :: _, completion, increments => record (.round l completion increments)
    | [], _, _ => pure ()
  beginIncrement
    | l :: _ => record (.increment l)
    | [] => pure ()
  signal loops s := record (.signal s loops)
  endStatement completion := record (.statement completion)

/-- Runs the statements of a program in order. -/
def executeProgram (steps : Nat) (program : List Stmt) : Traced Unit :=
  keeper.executeProgram steps [] program

/-! ### The log changes nothing -/

theorem record_quiet (e : Movement) : Account.Quiet (fun _ => True) (record e) :=
  fun t _ => ⟨(), { t with log := t.log ++ [e] }, rfl, rfl, trivial⟩

theorem lift_follows {α : Type} (x : Exec α) : Account.Follows (fun _ => True) (lift x : Traced α) x :=
  .lift (fun _ _ _ => trivial) x

theorem keeper_faithful : keeper.Faithful fun _ => True where
  put _ _ _ := trivial
  read _ _ := lift_follows _
  assign _ _ _ := lift_follows _
  property _ _ := lift_follows _
  superMethod _ _ _ _ := lift_follows _
  callNative _ _ _ _ := lift_follows _
  callArrayMethod _ _ _ _ _ := lift_follows _
  newObject s cls _ _ := lift_follows (Exec.updateHeap fun h => h.newObject cls) s
  bindReceiver m object := lift_follows (Exec.updateHeap fun h => h.bind m object)
  runBody f arguments run body _ hrun := by
    apply (lift_follows _).bind
    intro frame
    rw [← bind_pure (Exec.inFrame frame body)]
    apply (Account.Follows.inFrame (fun _ _ _ => trivial) frame (hrun [])).bind
    intro completion
    exact (record_quiet _).bind fun _ => .pure completion
  declareFunction _ _ := .get_bind fun _ => lift_follows _
  superclassOf _ _ _ := lift_follows _
  declareClass _ _ _ _ := lift_follows _
  enterLoop loops t _ := ⟨t.entered :: loops, { t with entered := t.entered + 1 }, rfl, rfl, trivial⟩
  endRound loops _ _ := by
    cases loops with
    | nil => exact .pure ()
    | cons l outer => exact record_quiet _
  beginIncrement loops := by
    cases loops with
    | nil => exact .pure ()
    | cons l outer => exact record_quiet _
  signal _ _ := record_quiet _
  endStatement _ := record_quiet _

end Traced

end LoxLang
