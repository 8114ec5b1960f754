/-!
The arguments of the command line: a command with its file and switches, and options that can stand before
or behind the name of the command.
-/

namespace LoxLang.CommandLine

inductive Command where
  | tokenize (path : String) (json : Bool)
  | parse (path : String)
  /-- Runs a program; its includes are expanded first if it is to be preprocessed. -/
  | run (path : String) (preprocess : Bool)
  | repl
deriving DecidableEq, Inhabited

structure Invocation where
  command : Command
  /-- Whether a log file is to be made. -/
  log : Bool
  includeDir : Option String
deriving DecidableEq, Inhabited

/-- Arguments sorted by what they are. -/
structure Sorted where
  switches : List String := []
  includeDir : Option String := none
  words : List String := []
deriving Inhabited

def includeOption : String := "--include-dir"

/-- Whether an argument begins with a dash and is more than one. -/
def isDashed (argument : String) : Bool :=
  argument.startsWith "-" && argument != "-"

/-- Notes a directory; there can be only one, and it has a name. -/
def Sorted.setIncludeDir? (s : Sorted) (dir : String) : Option Sorted :=
  if s.includeDir.isSome || dir == "" then none else some { s with includeDir := some dir }

/-- Sorts arguments, of which each known switch can be given once. With `toWord` it stops at the first word;
the answer has the arguments from there on. Behind two dashes there are only words. -/
def sort (known : List String) (toWord : Bool) : List String → Sorted → Option (Sorted × List String)
  | [], s => some (s, [])
  | "--" :: rest, s =>
    if toWord then none else some ({ s with words := s.words ++ rest }, [])
  | "--include-dir" :: dir :: rest, s =>
    if isDashed dir then none else (s.setIncludeDir? dir).bind (sort known toWord rest)
  | argument :: rest, s =>
    if argument.startsWith (includeOption ++ "=") then
      (s.setIncludeDir? (argument.drop (includeOption.length + 1)).toString).bind (sort known toWord rest)
    else if known.contains argument then
      if s.switches.contains argument then none
      else sort known toWord rest { s with switches := argument :: s.switches }
    else if isDashed argument then none
    else if toWord then some (s, argument :: rest)
    else sort known toWord rest { s with words := s.words ++ [argument] }

def logSwitch : String := "--log"
def jsonSwitch : String := "--json"
def rawSwitch : String := "--no-preprocess"

/-- The switch that a command has of its own. -/
def ownSwitches (name : String) : List String :=
  match name with
  | "tokenize" => [jsonSwitch]
  | "run" => [rawSwitch]
  | _ => []

/-- The command with a name, given its sorted arguments. -/
def Command.ofSorted? (name : String) (s : Sorted) : Option Command :=
  match name, s.words with
  | "tokenize", [path] => some (.tokenize path (s.switches.contains jsonSwitch))
  | "parse", [path] => some (.parse path)
  | "run", [path] => some (.run path (!s.switches.contains rawSwitch))
  | "repl", [] => some .repl
  | _, _ => none

/-- Reads the arguments; `none` if they make no sense. Without a command they start a prompt. An option behind
the name of the command counts rather than the same one before it. -/
def Invocation.ofArguments? (arguments : List String) : Option Invocation := do
  let (front, rest) ← sort [logSwitch] true arguments {}
  match rest with
  | [] => return ⟨.repl, front.switches.contains logSwitch, front.includeDir⟩
  | name :: rest =>
    let (back, _) ← sort (logSwitch :: ownSwitches name) false rest {}
    if back.words.contains "" then none
    let command ← Command.ofSorted? name back
    return ⟨command, front.switches.contains logSwitch || back.switches.contains logSwitch,
      back.includeDir.or front.includeDir⟩

/-- How the program is called. -/
def usage : String :=
  "Usage: lox [--log] [--include-dir DIR] [tokenize [--json] FILE | parse FILE | " ++
    "run [--no-preprocess] FILE | repl]\n"

end LoxLang.CommandLine
