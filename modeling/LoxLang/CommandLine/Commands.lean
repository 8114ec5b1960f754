import LoxLang.CommandLine.Arguments
import LoxLang.Session
import LoxLang.Syntax.Printer
import LoxLang.Text.Quoted
import LoxLang.Token.Json

/-!
What the commands do: the text they write to the standard output and to the standard error output, and the
exit status. The status tells whether a program was faulty, failed while it ran, or could not be read.
-/

namespace LoxLang.CommandLine

/-- What has to be found out about the world before an outcome can be relied on. -/
inductive Gap where
  | file (path : String)
  /-- The next line of the input, or that there is none. -/
  | line
  /-- What the clock says when it is asked the next time. -/
  | time
deriving DecidableEq, Inhabited

structure Outcome where
  stdout : String
  stderr : String
  status : Nat
  gap : Option Gap := none
  /-- How often the clock has been asked for it. -/
  asked : Nat := 0
deriving DecidableEq, Inhabited

/-- The surroundings of a command, as far as they are known. -/
structure World where
  files : Files
  /-- The lines of the standard input. -/
  input : List InputLine
  clock : Clock
deriving Inhabited

def usageStatus : Nat := 2
def failureStatus : Nat := 1
def faultyStatus : Nat := 65
def runtimeStatus : Nat := 70

/-- The exit status after some diagnostics. -/
def statusOf (ds : List Diagnostic) : Nat :=
  if ds.any fun d => !d.fault.isRuntime then faultyStatus
  else if ds.any fun d => d.fault.isRuntime then runtimeStatus
  else 0

def lines (texts : List String) : String :=
  String.join (texts.map (· ++ "\n"))

/-- The gap in what is known that a failure to read comes from. -/
def gapOfRead (path : String) : ReadFault → Option Gap
  | .unexplored => some (.file path)
  | _ => none

/-- The gap in what is known that a diagnostic comes from. -/
def gapOf (d : Diagnostic) : Option Gap :=
  match d.fault with
  | .runtime (.native (.unreadable path reason)) => gapOfRead path reason
  | .runtime (.native .endOfInput) => some .line
  | _ => none

/-- The outcome of a command that has written something and found some diagnostics. -/
def concluded (stdout : String) (ds : List Diagnostic) : Outcome :=
  ⟨stdout, lines (ds.map Diagnostic.text), statusOf ds, ds.findSome? gapOf, 0⟩

/-- The message about something that could not be done, and why. -/
def failureText (what reason : String) : String :=
  "Error: " ++ what ++ "\n\nCaused by:\n    " ++ reason ++ "\n"

def failed (what reason : String) : Outcome :=
  ⟨"", failureText what reason, failureStatus, none, 0⟩

/-- The outcome for a file that cannot be read. -/
def unreadable (what path : String) (reason : ReadFault) : Outcome :=
  { failed (what ++ " " ++ Text.shown path) reason.message with gap := gapOfRead path reason }

/-- Does something with the text of a file. -/
def withSource (w : World) (path : String) (f : String → Outcome) : Outcome :=
  match w.files.readProgram path with
  | .ok source => f source
  | .error reason => unreadable "Failed to read" path reason

/-- Lists the tokens of a text. -/
def tokenize (json : Bool) (source : String) : Outcome :=
  let listing :=
    if json then Token.document (tokens source) ++ "\n"
    else lines ((tokens source).map Token.listing)
  concluded listing (lexicalFaults source)

/-- Prints the statements of a text. -/
def parse (source : String) : Outcome :=
  let p := LoxLang.parse (tokens source) 0
  concluded (lines (p.statements.map Stmt.text)) (lexicalFaults source ++ p.faults)

/-- The outcome of a run, which prints to the standard output. -/
def ofRun : Report × Session → Outcome
  | (r, s) => { concluded r.shown r.diagnostics with asked := s.machine.clock.asked }

/-- The outcome of running a file. -/
def ofFileRun (path : String) : Except FileFault Report × Session → Outcome
  | (.ok r, s) => ofRun (r, s)
  | (.error (.unreadable reason), _) => unreadable "Failed to run" path reason
  | (.error (.notIncluded fault), _) =>
    ⟨"", fault.text ++ "\n", faultyStatus,
      match fault.cause with
      | .unreadable reason => gapOfRead fault.path reason
      | _ => none, 0⟩

/-- What is shown before each line of a dialogue. -/
def prompt : String := ">>> "

/-- How a dialogue ends that reads a line that is not UTF-8. -/
def inputFailure : String :=
  "Error: " ++ ReadFault.notUtf8.message ++ "\n"

/-- Runs a line of a dialogue. -/
def runLine (line : String) (s : Session) : Outcome × Session :=
  let run := s.run Session.ampleSteps line
  (ofRun run, run.2)

/-- The session in other surroundings. -/
def surrounded (w : World) (s : Session) : Session :=
  { s with machine := { s.machine with files := w.files, input := w.input, clock := w.clock } }

/-- A dialogue: each line is run by itself in one session, to the end of the input. The first argument bounds
the number of lines. A program can read lines too, which then are not run. -/
def dialogue : Nat → Session → Outcome
  | 0, _ => ⟨"", "", 0, none, 0⟩
  | n + 1, s =>
    match s.machine.input with
    | [] => ⟨prompt ++ "\n", "", 0, none, 0⟩
    | none :: _ => ⟨prompt, inputFailure, failureStatus, none, 0⟩
    | some line :: rest =>
      let (here, s) := runLine line { s with machine := { s.machine with input := rest } }
      let later := dialogue n s
      ⟨prompt ++ here.stdout ++ later.stdout, here.stderr ++ later.stderr, later.status,
        here.gap.or later.gap, Nat.max here.asked later.asked⟩

def Invocation.session (i : Invocation) (w : World) : Session :=
  .new w.files i.includeDir w.input w.clock

/-- The file that a log is written to. -/
def logPath : String := "lox.log"

/-- The outcome if the log cannot be made. -/
def Invocation.logFailure? (i : Invocation) (w : World) : Option Outcome :=
  match i.log, w.files.view logPath with
  | true, .directory => some (failed ("Failed to create " ++ logPath) ReadFault.isDirectory.message)
  | _, _ => none

def wrongUsage : Outcome :=
  ⟨"", usage, usageStatus, none, 0⟩

/-- The outcome of a command after the log has been made. -/
def Invocation.perform (i : Invocation) (w : World) : Outcome :=
  match i.command with
  | .tokenize path json => withSource w path (tokenize json)
  | .parse path => withSource w path parse
  | .run path true => ofFileRun path ((i.session w).runFile Session.ampleSteps path)
  | .run path false =>
    withSource w path fun source => ofRun ((i.session w).run Session.ampleSteps source)
  | .repl => dialogue (w.input.length + 1) (i.session w)

/-- The outcome of calling the program with some arguments. -/
def respond (arguments : List String) (w : World) : Outcome :=
  match Invocation.ofArguments? arguments with
  | none => wrongUsage
  | some i => (i.logFailure? w).getD (i.perform w)

end LoxLang.CommandLine
