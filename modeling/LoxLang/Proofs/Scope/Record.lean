import LoxLang.Proofs.Scope.Lexical
import LoxLang.Proofs.Session.Events

/-!
Sessions with the record of the mentions that their programs evaluated. A recorded session goes through the
same states and reports as the session itself, so what holds of its record holds of every evaluation of a
mention in the session.
-/

namespace LoxLang

/-- A session with the record of the mentions that its programs evaluated. -/
structure RecordedSession where
  world : World
  nextId : NodeId
  includeDir : Option String

namespace RecordedSession

/-- The session without its record. -/
def session (s : RecordedSession) : Session :=
  ⟨s.world.machine, s.nextId, s.includeDir⟩

/-- A session before its first program. -/
def new (files : Files) (includeDir : Option String) (input : List InputLine) (clock : Clock)
    (regex : Pattern.Engine := .standard) : RecordedSession :=
  ⟨⟨.initial files input clock regex, [], []⟩, 0, includeDir⟩

/-- The report of a run that ended in some state, and the session behind it. -/
def finish (s : RecordedSession) (diagnostics : List Diagnostic) (exhausted : Bool) :
    Report × RecordedSession :=
  (⟨s.world.machine.output, diagnostics, exhausted⟩, { s with world.machine.output := #[] })

/-- Runs the statements of a program in order. -/
def executeProgram (steps : Nat) (program : List Stmt) : Lexical Unit :=
  Lexical.keeper.executeProgram steps [] program

/-- Runs a program of resolved statements. -/
def execute (steps : Nat) (program : List Stmt) (s : RecordedSession) : Report × RecordedSession :=
  match (executeProgram steps program).run s.world with
  | .ok _ w => finish { s with world := w } [] false
  | .error (.failed d) w => finish { s with world := w } [d] false
  | .error .exhausted w => finish { s with world := w } [] true

/-- Runs the text of a program and takes down the mentions it evaluates. -/
def run (steps : Nat) (source : String) (s : RecordedSession) : Report × RecordedSession :=
  let parsed := parse (tokens source) s.nextId
  let s := { s with nextId := parsed.nextId }
  let faults := lexicalFaults source ++ parsed.faults
  if !faults.isEmpty then finish s faults false
  else
    let resolution := resolve parsed.statements
    let s := { s with world.machine.hops := s.world.machine.hops.recordAll resolution.lookups }
    match resolution.fault with
    | some fault => finish s [fault] false
    | none => execute steps parsed.statements s

/-- Runs a file after its includes have been expanded, and takes down the mentions it evaluates. -/
def runFile (steps : Nat) (path : String) (s : RecordedSession) : Except FileFault Report × RecordedSession :=
  match s.world.machine.files.readProgram path with
  | .error reason => (.error (.unreadable reason), s)
  | .ok text =>
    match Include.expand s.session.source ((Path.parent? path).getD "") text with
    | .error fault => (.error (.notIncluded fault), s)
    | .ok e =>
      let (report, s) := run steps (String.ofList e.source) s
      let origins := e.origins.toArray
      (.ok { report with diagnostics := report.diagnostics.map (Diagnostic.relocate origins) }, s)

/-- The session when it has other surroundings. -/
def surrounded (files : Files) (input : List InputLine) (clock : Clock) (s : RecordedSession) : RecordedSession :=
  { s with world.machine := { s.world.machine with files := files, input := input, clock := clock } }

/-- What an event shows, and the session behind it. -/
def step (s : RecordedSession) : Session.Event → Option (Except FileFault Report) × RecordedSession
  | .run steps source => (some (.ok (s.run steps source).1), (s.run steps source).2)
  | .runFile steps path => (some (s.runFile steps path).1, (s.runFile steps path).2)
  | .meanwhile files input clock => (none, s.surrounded files input clock)

/-- What events show that happen one after the other, and the session behind them. -/
def follow (s : RecordedSession) :
    List Session.Event → List (Option (Except FileFault Report)) × RecordedSession
  | [] => ([], s)
  | e :: rest => ((s.step e).1 :: ((s.step e).2.follow rest).1, ((s.step e).2.follow rest).2)

theorem execute_session (steps : Nat) (program : List Stmt) (s : RecordedSession) :
    s.session.execute steps program =
      ((s.execute steps program).1, (s.execute steps program).2.session) := by
  have h : (LoxLang.executeProgram steps program).run s.session.machine =
      Account.forget ((executeProgram steps program).run s.world) :=
    ((Lexical.keeper_faithful.executeProgram steps [] program s.world).forget trivial).symm
  unfold execute Session.execute
  rw [h]
  cases (executeProgram steps program).run s.world with
  | ok _ w => rfl
  | error halt w => cases halt <;> rfl

/-- Recording changes neither the report of a run nor the session behind it. -/
theorem run_session (steps : Nat) (source : String) (s : RecordedSession) :
    s.session.run steps source = ((s.run steps source).1, (s.run steps source).2.session) := by
  let parsed := parse (tokens source) s.nextId
  let resolution := resolve parsed.statements
  let ready : RecordedSession := { s with
    nextId := parsed.nextId
    world.machine.hops := s.world.machine.hops.recordAll resolution.lookups }
  have hready := execute_session steps parsed.statements ready
  unfold run Session.run Session.runScanned
  cases hfaults : (lexicalFaults source ++ parsed.faults).isEmpty with
  | false => simp [session, parsed, hfaults]; rfl
  | true =>
    cases hfault : resolution.fault with
    | some fault => simp [session, parsed, resolution, hfaults, hfault]; rfl
    | none =>
      simpa [session, parsed, resolution, ready, hfaults, hfault] using hready

theorem runFile_session (steps : Nat) (path : String) (s : RecordedSession) :
    s.session.runFile steps path = ((s.runFile steps path).1, (s.runFile steps path).2.session) := by
  unfold runFile Session.runFile
  change (match s.world.machine.files.readProgram path with | .error _ => _ | .ok _ => _) = _
  cases s.world.machine.files.readProgram path with
  | error reason => rfl
  | ok text =>
    dsimp only
    cases Include.expand s.session.source ((Path.parent? path).getD "") text with
    | error fault => rfl
    | ok e => simp only [run_session]

theorem step_session (e : Session.Event) (s : RecordedSession) :
    s.session.step e = ((s.step e).1, (s.step e).2.session) := by
  cases e with
  | run steps source => simp only [Session.step, step, run_session]
  | runFile steps path => simp only [Session.step, step, runFile_session]
  | «meanwhile» files input clock => rfl

theorem follow_session (events : List Session.Event) (s : RecordedSession) :
    s.session.follow events = ((s.follow events).1, (s.follow events).2.session) := by
  induction events generalizing s with
  | nil => rfl
  | cons e rest ih => simp only [Session.follow, follow, step_session, ih]

theorem follow_append (before after : List Session.Event) (s : RecordedSession) :
    (s.follow (before ++ after)).2 = ((s.follow before).2.follow after).2 := by
  induction before generalizing s with
  | nil => rfl
  | cons e rest ih => exact ih (s.step e).2

/-- An event that executes a program leaves the recorded session as the run of it does. -/
theorem step_executed {s : RecordedSession} {e : Session.Event} {x : Session.Executed}
    (hx : s.session.executed e = some x) : (s.step e).2 = (s.run x.steps x.source).2 := by
  cases e with
  | run steps source =>
    obtain rfl := Option.some.inj hx
    rfl
  | runFile steps path =>
    obtain ⟨text, e, hread, hexpand, rfl⟩ := Session.executed_file hx
    have hread : s.world.machine.files.readProgram path = .ok text := hread
    simp only [step, runFile, hread, hexpand]
  | «meanwhile» files input clock => cases hx

/-- Any other event changes nothing but the surroundings of the session. -/
theorem step_of_not_executed {s : RecordedSession} {e : Session.Event} (hx : s.session.executed e = none) :
    (s.step e).2 = s ∨ ∃ files input clock, (s.step e).2 = s.surrounded files input clock := by
  cases e with
  | run steps source => cases hx
  | runFile steps path =>
    unfold Session.executed at hx
    refine .inl ?_
    simp only [step, runFile]
    change (match s.world.machine.files.readProgram path with | .error _ => _ | .ok _ => _) = _ at hx
    cases hread : s.world.machine.files.readProgram path with
    | error reason => rfl
    | ok text =>
      cases hexpand : Include.expand s.session.source ((Path.parent? path).getD "") text with
      | error fault => simp only [hexpand]
      | ok e => simp [hread, hexpand] at hx
  | «meanwhile» files input clock => exact .inr ⟨files, input, clock, rfl⟩

end RecordedSession

end LoxLang
