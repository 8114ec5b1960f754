import LoxLang.CommandLine.Commands
import Std.Time.DateTime.Timestamp

/-!
The program. What a command does is worked out from what is known of the world. Where that leaves a gap, the
text that is certain is written, the gap is filled by reading a line or the clock or looking at a path, and the
command is worked out again; it comes to the same point and goes on from there.
-/

namespace LoxLang.CommandLine

/-- What has been found out about the world. -/
structure Known where
  explored : List (String × FileView)
  input : List InputLine
  /-- Whether the input has ended. -/
  inputEnded : Bool
  /-- What the clock has said so far. -/
  times : Array Binary64

namespace Known

/-- What is known before anything has been found out. -/
def nothing : Known := ⟨[], [], false, #[]⟩

/-- What the clock has not said yet is taken to be later by a second each time, so that a program that waits
comes to an end. -/
def clock (k : Known) : Clock where
  answers i := k.times[i]?.getD <|
    (k.times.back?.getD (.ofInt 0)).add (.ofInt ((i : Int) + 1 - k.times.size))

def world (k : Known) : World :=
  ⟨.ofExplored k.explored, k.input, k.clock⟩

/-- Looks at a path. -/
def explore (path : String) : IO FileView := do
  if path.contains '\x00' then return .nothing .nulInPath
  if path == "" then return .nothing .notFound
  try
    return .file (← IO.FS.readBinFile path).toList
  catch e =>
    match e with
    | .inappropriateType none .. => return .directory
    | .inappropriateType .. => return .nothing .notDirectory
    | .permissionDenied .. => return .nothing .notPermitted
    | .invalidArgument .. => return .nothing .nameTooLong
    | _ => return .nothing .notFound

/-- Reads a line; `none` at the end of the input. -/
def nextLine : IO (Option InputLine) := do
  try
    let line ← (← IO.getStdin).getLine
    return if line == "" then none else some (some line)
  catch _ => return some none

/-- The time of day in seconds. -/
def timeOfDay : IO Binary64 := do
  let now ← Std.Time.Timestamp.now
  return (Binary64.ofInt (now.toNanosecondsSinceUnixEpoch.val / 1000)).div (.ofInt 1000000)

/-- Fills a gap. -/
def fill (k : Known) : Gap → IO Known
  | .file path => do
    let view ← explore path
    return { k with explored := (path, view) :: k.explored }
  | .line => do
    match ← nextLine with
    | some line => return { k with input := k.input ++ [line] }
    | none => return { k with inputEnded := true }
  | .time => return { k with times := k.times.push (← timeOfDay) }

/-- The gap that an outcome leaves, if it can be filled. Behind a time that was not known nothing is certain. -/
def open? (k : Known) (o : Outcome) : Option Gap :=
  if k.times.size < o.asked then some .time
  else match o.gap with
    | some .line => if k.inputEnded then none else some .line
    | gap => gap

end Known

def write (text : String) : IO Unit := do
  let out ← IO.getStdout
  out.putStr text
  out.flush

/-- Works something out until no gap is left, and writes what comes of it. The number counts the characters
that have been written already. -/
partial def settle {α : Type} (attempt : World → Outcome × α) (written : Nat) (k : Known) :
    IO (Outcome × α × Known) := do
  let (o, a) := attempt k.world
  match k.open? o with
  | some .line =>
    write (o.stdout.drop written).toString
    settle attempt o.stdout.length (← k.fill .line)
  | some gap => settle attempt written (← k.fill gap)
  | none =>
    write (o.stdout.drop written).toString
    (← IO.getStderr).putStr o.stderr
    return (o, a, k)

/-- A dialogue to the end of the input; the answer is the exit status. -/
partial def converse (s : Session) : IO Nat := do
  write prompt
  match ← Known.nextLine with
  | none =>
    write "\n"
    return 0
  | some none =>
    (← IO.getStderr).putStr inputFailure
    return failureStatus
  | some (some line) =>
    let (_, s, _) ← settle (fun w => runLine line (surrounded w s)) 0 .nothing
    converse s

/-- Makes an empty log. -/
def makeLog : IO Unit := do
  try
    IO.FS.writeFile logPath ""
  catch _ => return

end LoxLang.CommandLine

open LoxLang LoxLang.CommandLine in
def main (arguments : List String) : IO UInt32 := do
  let invocation := Invocation.ofArguments? arguments
  let start : Known ← do
    if (invocation.map (·.log)).getD false then
      let k ← Known.nothing.fill (.file logPath)
      makeLog
      pure k
    else pure .nothing
  match invocation with
  | some ⟨.repl, log, includeDir⟩ =>
    let w := start.world
    let i : Invocation := ⟨.repl, log, includeDir⟩
    match i.logFailure? w with
    | some o =>
      (← IO.getStderr).putStr o.stderr
      return o.status.toUInt32
    | none => return (← converse (i.session w)).toUInt32
  | _ =>
    let (o, _, _) ← settle (fun w => (respond arguments w, ())) 0 start
    return o.status.toUInt32
