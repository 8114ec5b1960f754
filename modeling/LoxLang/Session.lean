import LoxLang.Evaluator
import LoxLang.Include.Expansion
import LoxLang.Pattern.Basic
import LoxLang.Syntax.Parser
import LoxLang.Token.Lexer

/-!
Sessions. Programs that are run in one session share its global variables. A program runs only if it has
no lexical fault, no fault of grammar and no fault of scope; it ends at its first runtime fault, and the
session goes on.
-/

namespace LoxLang

/-- Runs the statements of a program in order. -/
def executeProgram (steps : Nat) : List Stmt → Exec Unit
  | [] => return
  | s :: rest => do
    let _ ← execute steps s
    executeProgram steps rest

/-- What one run has shown. -/
structure Report where
  written : Array Written
  diagnostics : List Diagnostic
  /-- Whether the run ended for want of steps. -/
  exhausted : Bool := false
deriving Inhabited

namespace Report

/-- What the program has printed. -/
def output (r : Report) : String :=
  String.join (r.written.toList.map Written.output)

/-- What a terminal shows that the program prints to: its prompts too. -/
def shown (r : Report) : String :=
  String.join (r.written.toList.map Written.text)

/-- Whether the program was faulty before it ran. -/
def hadError (r : Report) : Bool :=
  r.diagnostics.any fun d => !d.fault.isRuntime

def hadRuntimeError (r : Report) : Bool :=
  r.diagnostics.any fun d => d.fault.isRuntime

end Report

/-- A diagnostic of an expanded text, told at the place where its line was written. -/
def Diagnostic.relocate (origins : Array Include.Origin) (d : Diagnostic) : Diagnostic :=
  match origins[d.position.line]? with
  | some origin => { d with position := ⟨origin.line, d.position.column⟩, file := origin.file }
  | none => d

structure Session where
  machine : Machine
  /-- The first identity that no node of the session has. -/
  nextId : NodeId
  includeDir : Option String
deriving Inhabited

/-- Why a file was not run. -/
inductive FileFault where
  | unreadable (reason : ReadFault)
  | notIncluded (fault : Include.Fault)
deriving Inhabited

namespace Session

/-- A session before its first program. -/
def new (files : Files) (includeDir : Option String) (input : List InputLine) (clock : Clock)
    (regex : Pattern.Engine := .standard) : Session :=
  ⟨.initial files input clock regex, 0, includeDir⟩

/-- Steps that no program uses up that ends within a lifetime. -/
def ampleSteps : Nat := 1000000000000000

/-- The session with nothing written that has not been taken away. -/
def flush (s : Session) : Session :=
  { s with machine := { s.machine with output := #[] } }

/-- The report of a run that ended in some state, and the session behind it. -/
def finish (s : Session) (diagnostics : List Diagnostic) (exhausted : Bool) : Report × Session :=
  (⟨s.machine.output, diagnostics, exhausted⟩, s.flush)

/-- Runs a program of resolved statements. -/
def execute (steps : Nat) (program : List Stmt) (s : Session) : Report × Session :=
  match (executeProgram steps program).run s.machine with
  | .ok _ m => finish { s with machine := m } [] false
  | .error (.failed d) m => finish { s with machine := m } [d] false
  | .error .exhausted m => finish { s with machine := m } [] true

/-- Runs a program given by its lexical faults and its tokens. The distances found by the resolver are
recorded even if it reports a fault; no code that runs mentions the nodes they belong to. -/
def runScanned (steps : Nat) (lexical : List Diagnostic) (tokens : List Token) (s : Session) :
    Report × Session :=
  let parsed := parse tokens s.nextId
  let s := { s with nextId := parsed.nextId }
  let faults := lexical ++ parsed.faults
  if !faults.isEmpty then finish s faults false
  else
    let resolution := resolve parsed.statements
    let s := { s with machine := { s.machine with
      hops := s.machine.hops.recordAll resolution.lookups } }
    match resolution.fault with
    | some fault => finish s [fault] false
    | none => execute steps parsed.statements s

/-- Runs the text of a program. -/
def run (steps : Nat) (source : String) (s : Session) : Report × Session :=
  s.runScanned steps (lexicalFaults source) (tokens source)

/-- Where the session looks for included texts. -/
def source (s : Session) : Include.Source :=
  ⟨s.machine.files, s.includeDir⟩

/-- Runs a file after its includes have been expanded. Diagnostics tell where their lines were written. -/
def runFile (steps : Nat) (path : String) (s : Session) : Except FileFault Report × Session :=
  match s.machine.files.readProgram path with
  | .error reason => (.error (.unreadable reason), s)
  | .ok text =>
    match Include.expand s.source ((Path.parent? path).getD "") text with
    | .error fault => (.error (.notIncluded fault), s)
    | .ok e =>
      let (report, s) := run steps (String.ofList e.source) s
      let origins := e.origins.toArray
      (.ok { report with diagnostics := report.diagnostics.map (Diagnostic.relocate origins) }, s)

end Session

end LoxLang
