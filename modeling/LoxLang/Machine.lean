import LoxLang.Diagnostic
import LoxLang.Heap.Basic
import LoxLang.Pattern.Engine
import LoxLang.Scope.HopTable

/-!
The state of a session and the computations on it. A computation yields a value, or fails with a
diagnostic, or runs out of the steps it was given; in each case the state it has reached is kept.
-/

namespace LoxLang

/-- The outermost scope; the first one that a session makes. -/
def FrameId.globals : FrameId := ⟨0⟩

/-- A line of input with its terminator; `none` if its bytes are not UTF-8. -/
abbrev InputLine := Option String

/-- A clock. It tells the time of day in seconds, each time it is asked anew. -/
structure Clock where
  /-- What it says when it has been asked so many times before. -/
  answers : Nat → Binary64
  /-- How often it has been asked. -/
  asked : Nat := 0
deriving Inhabited

namespace Clock

/-- A clock that stands still. -/
def ofInt (seconds : Int) : Clock :=
  ⟨fun _ => .ofInt seconds, 0⟩

def time (c : Clock) : Binary64 :=
  c.answers c.asked

/-- The clock when it has been asked once more. -/
def next (c : Clock) : Clock :=
  { c with asked := c.asked + 1 }

end Clock

/-- A text that a program has written. -/
inductive Written where
  | printed (text : String)
  /-- The prompt for a line of input. It goes to the terminal, wherever what is printed may go. -/
  | asked (prompt : String)
deriving DecidableEq, Inhabited

namespace Written

def text : Written → String
  | printed text => text
  | asked prompt => prompt

/-- What has been printed of it. -/
def output : Written → String
  | printed text => text
  | asked _ => ""

end Written

structure Machine where
  heap : Heap
  /-- The scope that code runs in now. -/
  current : FrameId
  /-- Where the variables live that the programs of the session mention. -/
  hops : HopTable
  /-- What has been written and not been taken away yet. -/
  output : Array Written
  /-- The lines that have not been read yet. -/
  input : List InputLine
  files : Files
  clock : Clock
  /-- What reads regular expressions. -/
  regex : Pattern.Engine
deriving Inhabited

namespace Machine

/-- A heap with the outermost scope, which binds the native functions. -/
def initialHeap : Heap :=
  (Heap.empty.newFrame none (Native.all.map fun f => (f.name, .native f))).2

/-- The state in which a session begins. -/
def initial (files : Files) (input : List InputLine) (clock : Clock) (regex : Pattern.Engine) : Machine :=
  ⟨initialHeap, .globals, .empty, #[], input, files, clock, regex⟩

/-- The machine with some text printed. -/
def print (m : Machine) (text : String) : Machine :=
  { m with output := m.output.push (.printed text) }

/-- The machine with a prompt written. -/
def ask (m : Machine) (prompt : String) : Machine :=
  { m with output := m.output.push (.asked prompt) }

end Machine

/-- Why a computation has no value. -/
inductive Halt where
  | failed (d : Diagnostic)
  /-- The steps it was given did not suffice. -/
  | exhausted

/-- A computation of a running program. -/
abbrev Exec := EStateM Halt Machine

/-- How a statement ended, if it did not fail. -/
inductive Completion where
  | normal
  | returned (v : Value)
  | broke
  | continued

namespace Exec

def fail {α : Type} (position : Position) (fault : RuntimeFault) : Exec α :=
  throw (.failed ⟨position, .runtime fault, none⟩)

def exhausted {α : Type} : Exec α :=
  throw .exhausted

/-- Runs a computation in a scope and comes back to the current one, however it ends. -/
def inFrame {α : Type} (frame : FrameId) (x : Exec α) : Exec α := fun m =>
  let previous := m.current
  match x { m with current := frame } with
  | .ok a m => .ok a { m with current := previous }
  | .error e m => .error e { m with current := previous }

/-- Changes the heap and yields a value. -/
def updateHeap {α : Type} (f : Heap → α × Heap) : Exec α := fun m =>
  let (a, heap) := f m.heap
  .ok a { m with heap := heap }

/-- Makes a scope inside another one. -/
def newFrame (parent : FrameId) (bindings : Bindings Value) : Exec FrameId :=
  updateHeap fun h => h.newFrame (some parent) bindings

/-- Binds a name in the current scope. -/
def define (name : String) (v : Value) : Exec Unit :=
  modify fun m => { m with heap := m.heap.define m.current name v }

end Exec

end LoxLang
