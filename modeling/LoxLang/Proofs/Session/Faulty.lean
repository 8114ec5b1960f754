import LoxLang.Proofs.Evaluation.Kept
import LoxLang.Proofs.Session.Reachable

/-!
A program that is faulty before it runs does not happen. It prints nothing, none of it is executed, and
whatever the session is asked next, it shows what it would have shown without that program. The resolver may
have recorded distances for some of its nodes by then, and the nodes of later programs have other numbers;
but no code that runs mentions the former, and the latter do not show.
-/

namespace LoxLang

namespace Session

variable {s t : Session}

/-! ### Programs that are executed -/

/-- A program that is executed has at most one fault, at runtime, and does not name a file. -/
theorem execute_fault {steps : Nat} {program : List Stmt} {s : Session} {d : Diagnostic}
    (hd : d ∈ (s.execute steps program).1.diagnostics) :
    (s.execute steps program).1.diagnostics = [d] ∧ d.fault.isRuntime = true ∧ d.file = none := by
  have hrun := executeProgram_keeps steps program s.machine
  unfold Ends at hrun
  unfold Session.execute at hd ⊢
  split at hd
  case h_1 => cases hd
  case h_2 e m hresult =>
    rw [hresult] at hrun
    obtain rfl := List.mem_singleton.mp hd
    exact ⟨rfl, hrun.1⟩
  case h_3 => cases hd

theorem execute_hadError (steps : Nat) (program : List Stmt) (s : Session) :
    (s.execute steps program).1.hadError = false := by
  refine List.any_eq_false.mpr fun d hd => ?_
  simp [(execute_fault hd).2.1]

/-- What a run reports has been found by scanning, by parsing or by resolving the program, or while it ran. -/
theorem run_diagnostic {steps : Nat} {source : String} {d : Diagnostic}
    (hd : d ∈ (s.run steps source).1.diagnostics) :
    d ∈ lexicalFaults source ∨ d ∈ (parse (tokens source) s.nextId).faults ∨
      (resolve (parse (tokens source) s.nextId).statements).fault = some d ∨
        d.fault.isRuntime = true ∧ d.file = none := by
  by_cases hfaults : lexicalFaults source ++ (parse (tokens source) s.nextId).faults = []
  · cases hfault : (resolve (parse (tokens source) s.nextId).statements).fault with
    | none =>
      have hrun : s.run steps source = _ := runScanned_of_none rfl hfaults hfault
      rw [hrun] at hd
      exact .inr (.inr (.inr (execute_fault hd).2))
    | some fault =>
      have hrun : s.run steps source = _ := runScanned_of_fault rfl hfaults hfault
      rw [hrun] at hd
      obtain rfl := List.mem_singleton.mp hd
      exact .inr (.inr (.inl rfl))
  · have hrun : s.run steps source = _ := runScanned_of_faults rfl hfaults
    rw [hrun] at hd
    exact (List.mem_append.mp hd).imp_right .inl

/-! ### Programs that are stopped -/

/-- A session behind a program that has been stopped: nodes have been given out, some of their distances may
have been recorded, and nothing else has happened. -/
def Stopped (s t : Session) : Prop :=
  ∃ lookups, s.Fresh t.nextId lookups ∧ t = s.recorded t.nextId lookups

/-- A faulty program is stopped, and with any number of steps it would have been. -/
theorem run_stopped (steps : Nat) (source : String) (s : Session)
    (hfaulty : (s.run steps source).1.hadError = true) :
    ∃ t, s.Stopped t ∧ ∃ faults, ∀ n, s.run n source = t.finish faults false := by
  unfold Session.run at hfaulty ⊢
  rcases runScanned_course (lexicalFaults source) (tokens source) s with
    ⟨lookups, faults, hlookups, hrun⟩ | ⟨_, _, hrun⟩
  · have hparsed := parse_yields (tokens_words source) s.nextId
    refine ⟨_, ⟨lookups, ⟨hparsed.1, ?_⟩, rfl⟩, faults, hrun⟩
    intro l hl
    exact hparsed.2.2.range _ (resolve_lookups hparsed.2.1 l (hlookups l hl))
  · rw [hrun, execute_hadError] at hfaulty
    cases hfaulty

/-- No code that a stopped program is followed by has anything to do with its nodes. -/
theorem Stopped.follow (h : s.Stopped t) (hs : s.Reachable) (events : List Event) :
    (t.follow events).1 = (s.follow events).1 := by
  obtain ⟨lines, hsettled⟩ := hs.settled
  have hself : s.Alike ⟨(Skew.diagonal s.nextId lines).node, Eq⟩ s :=
    hsettled.imp_place fun _ _ hplace => hplace.1
  obtain ⟨lookups, hfresh, hleft⟩ := h
  have halike := hself.recorded_apart hfresh (Fresh.nothing s)
  rw [← hleft] at halike
  exact halike.follow (fun _ _ => Iff.rfl) events

theorem Stopped.flush (h : s.Stopped t) (hs : s.Reachable) : t.flush = t := by
  obtain ⟨lookups, _, hleft⟩ := h
  have houtput : t.machine.output = #[] := by
    rw [hleft]
    exact hs.output
  unfold Session.flush
  rw [← houtput]

/-! ### Events -/

/-- The event with another number of steps for the program that it runs. -/
def Event.within (n : Nat) : Event → Event
  | .run _ source => .run n source
  | .runFile _ path => .runFile n path
  | .meanwhile files input clock => .meanwhile files input clock

theorem hadError_relocate (origins : Array Include.Origin) (r : Report) :
    Report.hadError { r with diagnostics := r.diagnostics.map (Diagnostic.relocate origins) } =
      r.hadError := by
  have hfault : ∀ d : Diagnostic, (d.relocate origins).fault = d.fault := by
    intro d
    unfold Diagnostic.relocate
    split <;> rfl
  simp [Report.hadError, List.any_map, Function.comp_def, hfault]

/-- What has happened when an event has shown a program to be faulty. -/
theorem step_stopped {e : Event} {r : Report} (hshown : (s.step e).1 = some (.ok r))
    (hfaulty : r.hadError = true) :
    ∃ t, s.Stopped t ∧ (s.step e).2 = t.flush ∧ r.written = t.machine.output ∧ r.exhausted = false ∧
      ∀ n, s.step (e.within n) = s.step e := by
  cases e with
  | run steps source =>
    obtain rfl : (s.run steps source).1 = r := Except.ok.inj (Option.some.inj hshown)
    obtain ⟨t, ht, faults, hrun⟩ := run_stopped steps source s hfaulty
    refine ⟨t, ht, ?_, ?_, ?_, ?_⟩
    · simp only [Session.step, hrun, finish]
    · simp only [hrun, finish]
    · simp only [hrun, finish]
    · intro n
      simp only [Event.within, Session.step, hrun]
  | runFile steps path =>
    have hok : (s.runFile steps path).1 = .ok r := Option.some.inj hshown
    rcases runFile_course path s with ⟨_, hfile⟩ | ⟨source, origins, hfile⟩
    · rw [hfile] at hok
      cases hok
    · rw [hfile] at hok
      obtain rfl := Except.ok.inj hok
      rw [hadError_relocate] at hfaulty
      obtain ⟨t, ht, faults, hrun⟩ := run_stopped steps source s hfaulty
      refine ⟨t, ht, ?_, ?_, ?_, ?_⟩
      · simp only [Session.step, hfile, hrun, finish]
      · simp only [hrun, finish]
      · simp only [hrun, finish]
      · intro n
        simp only [Event.within, Session.step, hfile, hrun]
  | «meanwhile» files input clock => cases hshown

end Session

/-- Whatever has happened in a session, a program that is faulty before it runs prints nothing and executes
nothing: it would have shown the same with no steps to execute anything with, and of the machine, only
distances have changed. And whatever happens next shows the same as if the program had never been there. -/
theorem faulty_program_is_unobservable {s : Session} (hs : s.Reachable) (e : Session.Event) (r : Report)
    (hshown : (s.step e).1 = some (.ok r)) (hfaulty : r.hadError = true) :
    r.written = #[] ∧ r.exhausted = false ∧ (∀ n, s.step (e.within n) = s.step e) ∧
      (∃ hops, (s.step e).2.machine = { s.machine with hops := hops }) ∧
      ∀ events, ((s.step e).2.follow events).1 = (s.follow events).1 := by
  obtain ⟨t, ht, hnext, houtput, hexhausted, hsteps⟩ := Session.step_stopped hshown hfaulty
  have hflush := ht.flush hs
  obtain ⟨lookups, _, hleft⟩ := id ht
  rw [hflush] at hnext
  refine ⟨?_, hexhausted, hsteps, ?_, ?_⟩
  · rw [houtput, hleft]
    exact hs.output
  · rw [hnext, hleft]
    exact ⟨_, rfl⟩
  · intro events
    rw [hnext]
    exact ht.follow hs events

/-- A program whose second method is at fault for what it returns. By then a distance has been recorded for a
node of the first one. -/
def faultyMethod : Session.Event :=
  .run 9 "class A \x7b f() \x7b return this; \x7d init() \x7b return 1; \x7d \x7d"

theorem faulty_method_is_unobservable :
    let s := Session.new default none [] default
    (∃ r, (s.step faultyMethod).1 = some (.ok r) ∧ r.hadError = true) ∧
      (s.step faultyMethod).2.machine.hops.find? 0 = some 1 ∧
      ∀ events, ((s.step faultyMethod).2.follow events).1 = (s.follow events).1 := by
  intro s
  have hs : s.Reachable := .new _ _ _ _ _
  obtain ⟨r, hshown, hfaulty⟩ :
      ∃ r, (s.step faultyMethod).1 = some (.ok r) ∧ r.hadError = true := ⟨_, rfl, by decide +kernel⟩
  have hunseen := faulty_program_is_unobservable hs faultyMethod r hshown hfaulty
  exact ⟨⟨r, hshown, hfaulty⟩, by decide +kernel, hunseen.2.2.2.2⟩

end LoxLang
