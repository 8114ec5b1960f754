import LoxLang.Session

/-!
What can happen in a session: programs and files are run, and between them files may change, lines may be typed and
time may pass. A file is run as the text that its includes expand to.
-/

namespace LoxLang

namespace Session

variable {s : Session}

/-! ### Events -/

/-- What can happen in a session. -/
inductive Event where
  | run (steps : Nat) (source : String)
  | runFile (steps : Nat) (path : String)
  /-- Between programs, files may change, lines may be typed and time may pass. -/
  | meanwhile (files : Files) (input : List InputLine) (clock : Clock)

/-- What an event shows, nothing if no program is run, and the session behind it. -/
def step (s : Session) : Event → Option (Except FileFault Report) × Session
  | .run steps source => (some (.ok (s.run steps source).1), (s.run steps source).2)
  | .runFile steps path => (some (s.runFile steps path).1, (s.runFile steps path).2)
  | .meanwhile files input clock =>
    (none, { s with machine := { s.machine with files := files, input := input, clock := clock } })

/-- What events show that happen one after the other, and the session behind them. -/
def follow (s : Session) : List Event → List (Option (Except FileFault Report)) × Session
  | [] => ([], s)
  | e :: rest => ((s.step e).1 :: ((s.step e).2.follow rest).1, ((s.step e).2.follow rest).2)

theorem follow_append (before after : List Event) (s : Session) :
    (s.follow (before ++ after)).2 = ((s.follow before).2.follow after).2 := by
  induction before generalizing s with
  | nil => rfl
  | cons e rest ih => exact ih (s.step e).2

/-- A session after any events. -/
inductive Reachable : Session → Prop where
  | new (files : Files) (includeDir : Option String) (input : List InputLine) (clock : Clock)
    (regex : Pattern.Engine) :
    Reachable (.new files includeDir input clock regex)
  | step {s : Session} (e : Event) : Reachable s → Reachable (s.step e).2

/-- A file is run as the text that its includes expand to, if it can be. -/
theorem runFile_course (path : String) (s : Session) :
    (∃ fault, ∀ steps, s.runFile steps path = (.error fault, s)) ∨
    ∃ source origins, ∀ steps, s.runFile steps path =
      (.ok { (s.run steps source).1 with
          diagnostics := (s.run steps source).1.diagnostics.map (Diagnostic.relocate origins) },
        (s.run steps source).2) := by
  unfold Session.runFile
  cases s.machine.files.readProgram path with
  | error reason => exact .inl ⟨_, fun _ => rfl⟩
  | ok text =>
    dsimp only
    cases Include.expand s.source ((Path.parent? path).getD "") text with
    | error fault => exact .inl ⟨_, fun _ => rfl⟩
    | ok e => exact .inr ⟨_, _, fun _ => rfl⟩

/-- A file that can be read, and whose includes have texts, is run as the expanded text. -/
theorem runFile_of_expand {path text : String} {e : Include.Expansion}
    (hread : s.machine.files.readProgram path = .ok text)
    (hexpand : Include.expand s.source ((Path.parent? path).getD "") text = .ok e) (steps : Nat) :
    s.runFile steps path = (.ok { (s.run steps (String.ofList e.source)).1 with
        diagnostics := (s.run steps (String.ofList e.source)).1.diagnostics.map
          (Diagnostic.relocate e.origins.toArray) },
      (s.run steps (String.ofList e.source)).2) := by
  unfold Session.runFile
  rw [hread]
  dsimp only
  rw [hexpand]

/-! ### Programs -/

/-- A program as it is executed: its text, and the origins of the lines if files were put together to it. -/
structure Executed where
  steps : Nat
  source : String
  origins : Array Include.Origin

/-- Where a line of the text is told to be written. -/
def Executed.told (x : Executed) (line : Nat) : Include.Origin :=
  (x.origins[line]?).getD ⟨none, line⟩

/-- The program that an event executes, if it executes one. -/
def executed (s : Session) : Event → Option Executed
  | .run steps source => some ⟨steps, source, #[]⟩
  | .runFile steps path =>
    match s.machine.files.readProgram path with
    | .error _ => none
    | .ok text =>
      match Include.expand s.source ((Path.parent? path).getD "") text with
      | .error _ => none
      | .ok e => some ⟨steps, String.ofList e.source, e.origins.toArray⟩
  | .meanwhile _ _ _ => none

/-- The programs that events execute one after the other. -/
def executions (s : Session) : List Event → List (Option Executed)
  | [] => []
  | e :: rest => s.executed e :: (s.step e).2.executions rest

/-- A file is executed as its includes expand it. -/
theorem executed_file {steps : Nat} {path : String} {x : Executed}
    (hx : s.executed (.runFile steps path) = some x) :
    ∃ text e, s.machine.files.readProgram path = .ok text ∧
      Include.expand s.source ((Path.parent? path).getD "") text = .ok e ∧
      x = ⟨steps, String.ofList e.source, e.origins.toArray⟩ := by
  unfold Session.executed at hx
  cases hread : s.machine.files.readProgram path with
  | error reason => simp [hread] at hx
  | ok text =>
    cases hexpand : Include.expand s.source ((Path.parent? path).getD "") text with
    | error fault => simp [hread, hexpand] at hx
    | ok e =>
      simp only [hread, hexpand, Option.some.injEq] at hx
      exact ⟨text, e, rfl, hexpand, hx.symm⟩

/-- An event that executes a program leaves the session as the run of it does. -/
theorem step_executed {e : Event} {x : Executed} (hx : s.executed e = some x) :
    (s.step e).2 = (s.run x.steps x.source).2 := by
  cases e with
  | run steps source =>
    obtain rfl := Option.some.inj hx
    rfl
  | runFile steps path =>
    obtain ⟨text, e, hread, hexpand, rfl⟩ := executed_file hx
    simp only [step, runFile_of_expand hread hexpand]
  | «meanwhile» files input clock => cases hx

/-- An event that executes nothing is that a file cannot be run, or it is between programs. -/
theorem step_of_not_executed {e : Event} (hx : s.executed e = none) :
    (∃ fault, s.step e = (some (.error fault), s)) ∨
      ∃ files input clock, e = .meanwhile files input clock := by
  cases e with
  | run steps source => cases hx
  | runFile steps path =>
    unfold Session.executed at hx
    cases hread : s.machine.files.readProgram path with
    | error reason =>
      refine .inl ⟨.unreadable reason, ?_⟩
      simp only [Session.step, Session.runFile, hread]
    | ok text =>
      cases hexpand : Include.expand s.source ((Path.parent? path).getD "") text with
      | error fault =>
        refine .inl ⟨.notIncluded fault, ?_⟩
        simp only [Session.step, Session.runFile, hread, hexpand]
      | ok e => simp [hread, hexpand] at hx
  | «meanwhile» files input clock => exact .inr ⟨files, input, clock, rfl⟩

/-! ### What holds of all sessions -/

/-- What every run keeps holds of all sessions if it holds of new ones and does not depend on the time, the
files and the input. -/
theorem Reachable.induction {P : Session → Prop} (hs : s.Reachable)
    (new : ∀ files includeDir input clock regex, P (.new files includeDir input clock regex))
    (run : ∀ s steps source, P s → P (s.run steps source).2)
    (meanwhile : ∀ s files input clock, P s →
      P { s with machine := { s.machine with files := files, input := input, clock := clock } }) :
    P s := by
  induction hs with
  | new files includeDir input clock regex => exact new files includeDir input clock regex
  | @step s e _ ih =>
    cases e with
    | run steps source => exact run s steps source ih
    | runFile steps path =>
      dsimp only [Session.step]
      rcases runFile_course path s with ⟨_, hfile⟩ | ⟨source, _, hfile⟩
      · rw [hfile]
        exact ih
      · rw [hfile]
        exact run s steps source ih
    | «meanwhile» files input clock => exact meanwhile s files input clock ih

/-- The text is a program that the session accepts: it has no lexical fault, no fault of grammar and no
fault of scope. -/
structure Accepts (s : Session) (source : String) (program : List Stmt) : Prop where
  lexical : lexicalFaults source = []
  faults : (parse (tokens source) s.nextId).faults = []
  statements : (parse (tokens source) s.nextId).statements = program
  scopes : (resolve (parse (tokens source) s.nextId).statements).fault = none

end Session

end LoxLang
