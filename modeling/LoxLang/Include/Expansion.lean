import LoxLang.Files.Basic
import LoxLang.Files.Path
import LoxLang.Text.Blank
import LoxLang.Text.Lines

/-!
Include expansion. A directive is a line that names a file between quotes or a library between angle
brackets. The directives at the beginning of a text, up to the first line that is neither blank nor a
directive, are replaced by the texts they name, whose own directives are expanded first. Beside the expanded
text stand the number of lines that this added, and for every line the place where it was written.
-/

namespace LoxLang.Include

/-! ### Directives -/

/-- What a directive names. -/
inductive Directive where
  | path (p : String)
  | library (name : String)
deriving DecidableEq, Inhabited

/-- The word that begins a directive. -/
def keyword : List Char := "include".toList

/-- The text behind a beginning that it has. -/
def strip? : List Char → List Char → Option (List Char)
  | [], cs => some cs
  | _ :: _, [] => none
  | b :: bs, c :: cs => if b = c then strip? bs cs else none

/-- The first character, the last one, and what is between them. -/
def enclosed? : List Char → Option (Char × List Char × Char)
  | open_ :: rest =>
    match rest.getLast? with
    | some close => some (open_, rest.dropLast, close)
    | none => none
  | [] => none

/-- The directive on a line, if the line is one: the keyword, blanks, and a name in delimiters. -/
def Directive.parse? (line : List Char) : Option Directive := do
  let rest ← strip? keyword (Text.trim line)
  let first ← rest.head?
  if !Text.isBlank first then none
  else
    let (open_, inner, close) ← enclosed? (Text.trimStart rest)
    if inner.isEmpty then none
    else if open_ == '<' && close == '>' then some (.library (String.ofList inner))
    else if (open_ == '"' || open_ == '\'') && open_ == close then some (.path (String.ofList inner))
    else none

/-! ### Texts and their lines -/

/-- The place where a line was written: a line of an included file, or of the text itself. -/
structure Origin where
  file : Option String
  line : Nat
deriving DecidableEq, Inhabited

/-- An expanded text. -/
structure Expansion where
  source : List Char
  addedLines : Nat
  /-- The origin of every line. -/
  origins : List Origin

/-- Why a directive has no text. -/
inductive Cause where
  | unreadable (reason : ReadFault)
  | circular
  | unknownLibrary
  /-- The nesting went deeper than it was allowed to. -/
  | exhausted
deriving DecidableEq, Inhabited

def Cause.message : Cause → String
  | unreadable reason => reason.message
  | circular => "Circular include."
  | unknownLibrary => "Unknown library."
  | exhausted => "Includes are nested too deeply."

/-- A directive without a text, and the path it stands for. -/
structure Fault where
  cause : Cause
  path : String
deriving DecidableEq, Inhabited

def Fault.text (f : Fault) : String :=
  "Include error: " ++ f.cause.message ++ " (" ++ f.path ++ ")"

/-- The libraries that come with the language, by name. -/
def bundled : List (String × String) :=
  [("hello_world", "fun hello_world() \x7b\n    print \"Hello, world!\";\n\x7d\n")]

/-- The number of lines of a text; an unfinished last line counts. -/
def lineCount (cs : List Char) : Nat :=
  (Text.lines cs).length

/-- Where texts are looked for. -/
structure Source where
  files : Files
  /-- The directory whose files come before the libraries of the language. -/
  includeDir : Option String

namespace Source

/-- The text of a file, with its path. -/
def file (s : Source) (path : String) : Except Fault (String × String) :=
  match s.files.readText path with
  | .ok text => .ok (path, text)
  | .error reason => .error ⟨.unreadable reason, path⟩

/-- The text of a library that comes with the language, with what stands for its path. -/
def bundledLibrary (name : String) : Except Fault (String × String) :=
  let path := "<" ++ name ++ ">"
  match bundled.lookup name with
  | some text => .ok (path, text)
  | none => .error ⟨.unknownLibrary, path⟩

/-- The text of a library, with its path. -/
def library (s : Source) (name : String) : Except Fault (String × String) :=
  match s.includeDir with
  | none => bundledLibrary name
  | some dir =>
    let path := Path.join dir (name ++ ".lox")
    match s.files.view path with
    | .file _ | .nothing .unexplored => s.file path
    | _ => bundledLibrary name

/-- The path and text that a directive in a file of some directory names. -/
def fetch (s : Source) (directory : String) : Directive → Except Fault (String × String)
  | .library name => s.library name
  | .path raw => s.file (Path.join directory raw)

end Source

/-- An expansion in the place of the directive on line `own`: it ends with a line feed, and where it is
empty the blank line that is left comes from the directive. -/
def splice (path : String) (own : Nat) (e : Expansion) : Expansion :=
  { source := if e.source.getLast? = some '\n' then e.source else e.source ++ ['\n']
    addedLines := lineCount e.source - 1
    origins :=
      if e.origins.isEmpty then [⟨none, own⟩]
      else e.origins.map fun o => ⟨some (o.file.getD path), o.line⟩ }

/-- Expands lines, of which the first is line `own` of its file, given the text of each directive. -/
def expandLines (named : Directive → Except Fault (String × Expansion)) :
    Nat → List (List Char) → Except Fault Expansion
  | _, [] => .ok ⟨[], 0, []⟩
  | own, line :: rest =>
    if (Text.trim line).isEmpty then do
      let e ← expandLines named (own + 1) rest
      return ⟨line ++ e.source, e.addedLines, ⟨none, own⟩ :: e.origins⟩
    else match Directive.parse? line with
      | some directive => do
        let (path, included) ← named directive
        let head := splice path own included
        let e ← expandLines named (own + 1) rest
        return ⟨head.source ++ e.source, head.addedLines + e.addedLines, head.origins ++ e.origins⟩
      | none =>
        let lines := line :: rest
        .ok ⟨lines.flatten, 0, (List.range' own lines.length).map fun i => ⟨none, i⟩⟩

/-- Expands a text of a directory inside the files `chain`, none of which it may include. The first
argument bounds the nesting. -/
def expandFrom (s : Source) : Nat → String → List String → List Char → Except Fault Expansion
  | 0, directory, _, _ => .error ⟨.exhausted, directory⟩
  | n + 1, directory, chain, text =>
    expandLines (fun directive => do
      let (path, text) ← s.fetch directory directive
      if chain.any (Path.same · path) then throw ⟨.circular, path⟩
      let e ← expandFrom s n ((Path.parent? path).getD "") (path :: chain) text.toList
      return (path, e)) 0 (Text.lines text)

/-- How deep includes may be nested. Includes that lead back to one file through ever longer spellings of
its path end earlier, because the system refuses the path. -/
def maxDepth : Nat := 100000

/-- Expands a text as if it were a file of a directory. -/
def expand (s : Source) (directory : String) (text : String) : Except Fault Expansion :=
  expandFrom s maxDepth directory [] text.toList

end LoxLang.Include
