import LoxLang.Proofs.Evaluation.Faithful
import LoxLang.Proofs.Syntax.WellFormed

/-!
Lexical evaluation: evaluation that also keeps the scopes which enclose the running code in the program
text. A display lists them from the inside outwards, each with the frame that was made for it and the names
that are declared in it in front of the running code. A function keeps the display of its declaration, and
its body runs under that one whatever the caller's is. Every mention of a variable is put on record when it
is evaluated, together with its display.

Displays are built from the text and from the frames at their creation alone. Neither the distances of the
resolver nor the parents of frames enter into them, so they say independently where a variable ought to be.
That the record changes nothing in what a program does is proved beside `Erases`.
-/

namespace LoxLang

/-- A scope around the running code. -/
structure Layer where
  /-- The frame that was made for the scope. -/
  frame : FrameId
  /-- The names that are declared in it in front of the running code. -/
  scope : Scope
deriving Inhabited

/-- The scopes around the running code, innermost first; the global scope is not among them. -/
abbrev Display := List Layer

namespace Display

/-- The frame that code under a display runs in. -/
def frame (d : Display) : FrameId :=
  match d with
  | [] => .globals
  | layer :: _ => layer.frame

/-- The display with an entry added to its innermost scope. -/
def enter (name : String) (status : Scope.Status) : Display → Display
  | [] => []
  | layer :: outer => { layer with scope := (name, status) :: layer.scope } :: outer

/-- The display behind the declaration of a name. -/
def declare (name : String) (d : Display) : Display :=
  (d.enter name .declared).enter name .defined

/-- The display behind a statement. -/
def after (s : Stmt) (d : Display) : Display :=
  match s.declared? with
  | some name => d.declare name
  | none => d

/-- The innermost scope that has a name. -/
def nearest? (d : Display) (name : String) : Option Layer :=
  d.find? fun layer => (layer.scope.lookup name).isSome

/-- The scopes alone. -/
def scopes (d : Display) : List Scope :=
  d.map Layer.scope

end Display

/-- How a variable is mentioned by running code. -/
inductive Mention where
  /-- A read of a variable or of `this`. -/
  | read (reference : Reference)
  | assign (reference : Reference) (v : Value)
  | super (id : NodeId) (position : Position)

/-- A mention that was evaluated: the display around it, and the state in which it was looked up. -/
structure Visit where
  mention : Mention
  display : Display
  machine : Machine

/-- A machine with the displays of the functions made so far and the record of visits, latest first. -/
structure World where
  machine : Machine
  /-- The displays of functions, by declaration and scope. -/
  captured : List ((NodeId × FrameId) × Display)
  visits : List Visit

instance : HasMachine World :=
  ⟨World.machine, fun m w => { w with machine := m }, fun _ _ => rfl⟩

/-- A computation of lexical evaluation. -/
abbrev Lexical := EStateM Halt World

namespace Lexical

open Account (lift inFrame)

/-- Puts a mention on record. -/
def visit (mention : Mention) (d : Display) : Lexical Unit :=
  modify fun w => { w with visits := ⟨mention, d, w.machine⟩ :: w.visits }

/-- Keeps the display of a function. -/
def capture (f : Closure) (d : Display) : Lexical Unit :=
  modify fun w => { w with captured := ((f.declaration.id, f.frame), d) :: w.captured }

/-- The display that was kept for a function. -/
def displayOf (f : Closure) : Lexical Display := do
  return ((← get).captured.lookup (f.declaration.id, f.frame)).getD []

def read (d : Display) (reference : Reference) : Lexical Value := do
  visit (.read reference) d
  lift (Exec.read reference)

def assign (d : Display) (reference : Reference) (v : Value) : Lexical Unit := do
  visit (.assign reference v) d
  lift (Exec.assign reference v)

/-- The scope of a class that binds the receiver. -/
def receiverScope : Scope := [(thisName, .defined)]

/-- The scope of a class that binds its superclass. -/
def superclassScope : Scope := [(superName, .defined)]

/-- A method bound to a receiver sees the scope of the receiver around its body. -/
def bindReceiver (m : Closure) (receiver : ObjectId) : Lexical Closure := do
  let f ← lift (Exec.updateHeap fun h => h.bind m receiver)
  let d ← displayOf m
  capture f (⟨f.frame, receiverScope⟩ :: d)
  return f

def bindMethod (cls : ClassId) (name : Ident) (receiver : ObjectId) : Lexical Value := do
  match (← get).machine.heap.method? cls name.name with
  | some m => return .function (← bindReceiver m receiver)
  | none => lift (Exec.fail name.position (.undefinedProperty name.name))

def property (v : Value) (name : Ident) : Lexical Value := do
  match v with
  | .object id =>
    match (← get).machine.heap.object? id with
    | none => lift (Exec.fail name.position (.undefinedProperty name.name))
    | some o =>
      match o.fields.lookup name.name with
      | some v => return v
      | none => bindMethod o.cls name id
  | v => lift (Exec.property v name)

def superMethod (d : Display) (id : NodeId) (position : Position) (method : Ident) : Lexical Value := do
  visit (.super id position) d
  let m := (← get).machine
  match m.hops.find? id with
  | none => lift (Exec.fail position (.undefinedVariable superName))
  | some hops =>
    match m.heap.getAt? m.current hops superName with
    | some (.cls cls) =>
      match Exec.receiver? m hops with
      | some (.object receiver) => bindMethod cls method receiver
      | _ => lift (Exec.fail position (.undefinedVariable thisName))
    | _ => lift (Exec.fail position (.undefinedVariable superName))

/-- Keeps the display of the methods of a class. -/
def captureAll (frame : FrameId) (d : Display) : List FunctionDecl → Lexical Unit
  | [] => return
  | m :: rest => do
    capture ⟨m, frame, decide (m.name.name = initializerName)⟩ d
    captureAll frame d rest

/-- Declares a class. Its methods see its own name, and a scope that binds `super` if it has a
superclass. -/
def declareClass (d : Display) (name : Ident) (superclass : Option ClassId)
    (methods : List FunctionDecl) : Lexical Unit := do
  let d := d.declare name.name
  lift (Exec.define name.name .nil)
  let current := (← get).machine.current
  let frame ← match superclass with
    | some c => lift (Exec.newFrame current [(superName, .cls c)])
    | none => pure current
  captureAll frame (if superclass.isSome then ⟨frame, superclassScope⟩ :: d else d) methods
  let cls ← lift (Exec.updateHeap fun h =>
    h.newClass ⟨name.name, superclass, Exec.methodBindings frame methods⟩)
  lift (Exec.define name.name (.cls cls))

def superclassOf (d : Display) (reference : Reference) : Lexical ClassId := do
  match ← read d reference with
  | .cls id => return id
  | _ => lift (Exec.fail reference.ident.position .superclassNotClass)

/-- The scope of a function's body: its parameters are there from the start. -/
def parameterScope (parameters : List Ident) : Scope :=
  parameters.foldl (fun scope p => (p.name, .defined) :: (p.name, .declared) :: scope) []

/-- Runs the body of a function under the display of its declaration. -/
def runBody (f : Closure) (arguments : List Value) (run : Display → Lexical Completion) :
    Lexical Completion := do
  let outer ← displayOf f
  let frame ← lift (Exec.newFrame f.frame (Exec.argumentBindings f.declaration.parameters arguments))
  inFrame frame (run (⟨frame, parameterScope f.declaration.parameters⟩ :: outer))

/-- A function keeps the display behind its own declaration. -/
def declareFunction (d : Display) (declaration : FunctionDecl) : Lexical Unit := do
  let frame := (← get).machine.current
  capture ⟨declaration, frame, false⟩ (d.declare declaration.name.name)
  lift (Exec.define declaration.name.name (.function ⟨declaration, frame, false⟩))

/-- What is recorded. Code is surrounded by its display. -/
def keeper : Keeper Display Halt World where
  read := read
  assign := assign
  property := property
  superMethod := superMethod
  bindReceiver := bindReceiver
  runBody := runBody
  declareFunction := declareFunction
  superclassOf d name := superclassOf (d.enter name.name .declared)
  declareClass := declareClass
  inInitializer d name := d.enter name.name .declared
  inBlock d frame := ⟨frame, []⟩ :: d
  behind d s := d.after s

/-! ### The record changes nothing -/

/-- A lexical computation does what a computation of the machine does. -/
abbrev Erases {α : Type} (x : Lexical α) (y : Exec α) : Prop :=
  Account.Follows (fun _ => True) x y

/-- Work on the record alone leaves no trace. -/
abbrev Records {α : Type} (x : Lexical α) : Prop :=
  Account.Quiet (fun _ => True) x

theorem lift_erases {α : Type} (x : Exec α) : Erases (lift x) x :=
  .lift (fun _ _ _ => trivial) x

theorem visit_records (mention : Mention) (d : Display) : Records (visit mention d) :=
  fun _ _ => ⟨_, _, rfl, rfl, trivial⟩

theorem capture_records (f : Closure) (d : Display) : Records (capture f d) :=
  fun _ _ => ⟨_, _, rfl, rfl, trivial⟩

theorem displayOf_records (f : Closure) : Records (displayOf f) :=
  fun _ _ => ⟨_, _, rfl, rfl, trivial⟩

theorem captureAll_records (frame : FrameId) (d : Display) (methods : List FunctionDecl) :
    Records (captureAll frame d methods) := by
  induction methods with
  | nil => exact .pure ()
  | cons m rest ih =>
    intro w hw
    let f : Closure := ⟨m, frame, decide (m.name.name = initializerName)⟩
    exact ih { w with captured := ((f.declaration.id, f.frame), d) :: w.captured } hw

theorem read_erases (d : Display) (reference : Reference) :
    Erases (read d reference) (Exec.read reference) :=
  (visit_records _ _).bind fun _ => lift_erases _

theorem assign_erases (d : Display) (reference : Reference) (v : Value) :
    Erases (assign d reference v) (Exec.assign reference v) :=
  (visit_records _ _).bind fun _ => lift_erases _

theorem bindReceiver_erases (m : Closure) (receiver : ObjectId) :
    Erases (bindReceiver m receiver) (Exec.updateHeap fun h => h.bind m receiver) := by
  have h : Erases (bindReceiver m receiver)
      ((Exec.updateHeap fun h => h.bind m receiver) >>= Pure.pure) := by
    refine (lift_erases _).bind fun f => ?_
    refine (displayOf_records m).bind fun d => ?_
    exact (capture_records _ _).bind fun _ => .pure f
  simpa using h

theorem bindMethod_erases (cls : ClassId) (name : Ident) (receiver : ObjectId) :
    Erases (bindMethod cls name receiver) (Exec.bindMethod cls name receiver) := by
  refine .get_bind fun w => ?_
  cases w.machine.heap.method? cls name.name with
  | none => exact lift_erases _
  | some m => exact (bindReceiver_erases m receiver).bind fun _ => .pure _

theorem property_erases (v : Value) (name : Ident) :
    Erases (property v name) (Exec.property v name) := by
  unfold property
  split
  · refine .get_bind fun w => ?_
    cases w.machine.heap.object? _ with
    | none => exact lift_erases _
    | some o =>
      cases ho : o.fields.lookup name.name with
      | some v => simp only [ho]; exact .pure v
      | none => simp only [ho]; exact bindMethod_erases _ _ _
  · exact lift_erases _

theorem superMethod_erases (d : Display) (id : NodeId) (position : Position) (method : Ident) :
    Erases (superMethod d id position method) (Exec.superMethod id position method) := by
  refine (visit_records _ _).bind fun _ => ?_
  refine .get_bind fun w => ?_
  dsimp only
  cases w.machine.hops.find? id with
  | none => exact lift_erases _
  | some hops =>
    dsimp only
    cases w.machine.heap.getAt? w.machine.current hops superName with
    | none => exact lift_erases _
    | some v =>
      cases v with
      | cls c =>
        dsimp only
        cases Exec.receiver? w.machine hops with
        | none => exact lift_erases _
        | some v =>
          cases v with
          | object o => exact bindMethod_erases c method o
          | _ => exact lift_erases _
      | _ => exact lift_erases _

theorem declareClass_erases (d : Display) (name : Ident) (superclass : Option ClassId)
    (methods : List FunctionDecl) :
    Erases (declareClass d name superclass methods) (Exec.declareClass name superclass methods) := by
  refine (lift_erases _).bind fun _ => ?_
  refine .get_bind fun w => ?_
  cases superclass with
  | none =>
    refine (captureAll_records _ _ _).bind fun _ => ?_
    exact (lift_erases _).bind fun _ => lift_erases _
  | some c =>
    refine (lift_erases _).bind fun frame => ?_
    refine (captureAll_records _ _ _).bind fun _ => ?_
    exact (lift_erases _).bind fun _ => lift_erases _

theorem superclassOf_erases (d : Display) (reference : Reference) :
    Erases (superclassOf d reference) (Exec.superclassOf reference) := by
  refine (read_erases d reference).bind fun v => ?_
  cases v <;> first | exact .pure _ | exact lift_erases _

theorem runBody_erases {f : Closure} {arguments : List Value} {run : Display → Lexical Completion}
    {y : Exec Completion} (hrun : ∀ d, Erases (run d) y) : Erases (runBody f arguments run) (do
      let frame ← Exec.newFrame f.frame (Exec.argumentBindings f.declaration.parameters arguments)
      Exec.inFrame frame y) := by
  refine (displayOf_records f).bind fun outer => ?_
  exact (lift_erases _).bind fun frame => .inFrame (fun _ _ _ => trivial) frame (hrun _)

theorem declareFunction_erases (d : Display) (declaration : FunctionDecl) :
    Erases (declareFunction d declaration) (do
      let frame := (← get).current
      Exec.define declaration.name.name (.function ⟨declaration, frame, false⟩)) := by
  refine .get_bind fun w => ?_
  exact (capture_records _ _).bind fun _ => lift_erases _

theorem keeper_faithful : keeper.Faithful fun _ => True where
  put _ _ _ := trivial
  read := read_erases
  assign := assign_erases
  property := property_erases
  superMethod := superMethod_erases
  callNative _ _ _ _ := lift_erases _
  callArrayMethod _ _ _ _ _ := lift_erases _
  newObject w cls _ _ := lift_erases (Exec.updateHeap fun h => h.newObject cls) w
  bindReceiver := bindReceiver_erases
  runBody _ _ _ _ _ hrun := runBody_erases hrun
  declareFunction := declareFunction_erases
  superclassOf _ _ _ := superclassOf_erases _ _
  declareClass := declareClass_erases
  enterLoop d := .pure d
  endRound _ _ _ := .pure ()
  beginIncrement _ := .pure ()
  signal _ _ := .pure ()
  endStatement _ := .pure ()

end Lexical

end LoxLang
